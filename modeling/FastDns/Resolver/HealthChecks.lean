/-
The health checks of servers, a background task of the resolver
(`src/resolver/recursive.rs`: `spawn_background_tasks`), next to the queries that
measure round-trip times.

Every 30 seconds the task forgets entries of its health table, chooses the five
servers with the least round-trip times and asks each of them once. A check that
fails is counted, and from the third in a row on the round-trip time is raised.

The entry of a server that never answered is forgotten with its third failure,
before the next check, so such a server is penalised for every third failure only, and
not at all where its round-trip time was evicted (`penalties_accounted`). An entry with
one or two failures and no answer is never forgotten while the server is not checked,
and there may be any number of them (`health_unbounded`): what is meant to keep the
table small does not.

Of round-trip times only their order is used, and what the parameters of `RttOps`
make of them.
-/

import FastDns.Lib.Lru
import FastDns.Lib.Trace
import FastDns.Resolver.Cache
import Mathlib.Data.List.Sort
import Mathlib.Logic.Function.Basic

namespace FastDns.Resolver

open FastDns.Lib FastDns.Dns

/-- `HEALTH_CHECK_INTERVAL` -/
def healthCheckInterval : Nat := nanos 30

/-- `HEALTH_CHECK_COUNT` -/
def healthCheckCount : Nat := 5

/-- `HEALTH_PENALTY_THRESHOLD` -/
def healthPenaltyThreshold : Nat := 3

/-- How long the last answer of a server counts. -/
def healthMaxAge : Nat := nanos 3600

structure ServerHealth where
  consecutiveFailures : Nat := 0
  lastSuccess : Option Nat := none
deriving DecidableEq, Repr

/-- `health.retain` at the start of a round: the entry of a server stays. -/
def ServerHealth.retained (now : Nat) (h : ServerHealth) : Bool :=
  match h.lastSuccess with
  | some ts => decide (now ≤ ts + healthMaxAge)
  | none => decide (h.consecutiveFailures < healthPenaltyThreshold)

/-- The entry after one more failure. -/
def ServerHealth.failed (health : Option ServerHealth) : ServerHealth :=
  let h := health.getD {}
  { h with consecutiveFailures := h.consecutiveFailures + 1 }

/-- What is made of round-trip times in milliseconds, an `f64` in the source, and what
`sort_by` does besides sorting. -/
structure RttOps (R : Type) where
  /-- `avg * 0.7 + rtt_ms * 0.3` -/
  smooth : R → R → R
  /-- `avg + HEALTH_PENALTY_MS` -/
  penalise : R → R
  /-- What a query takes a server without a round-trip time to have, 500 ms. -/
  unknownQueried : R
  /-- What a round would take it to have, 999 ms. -/
  unknownChecked : R
  /-- The servers that are looked up while a list is sorted by a key, in order. Each
  look-up makes the entry the one used last. -/
  lookups : (IpAddr → R) → List IpAddr → List IpAddr

/-- `server_rtt` -/
abbrev RttTable (R : Type) := Lru IpAddr (R × Nat)

/-- What the health checks and the queries share, and where the task of the checks
is. -/
structure HealthChecks (R : Type) where
  rtt : RttTable R
  /-- `server_health` -/
  health : IpAddr → Option ServerHealth
  /-- The servers this round has not asked yet. -/
  serversToCheck : List IpAddr
  /-- When the task last did something. -/
  now : Nat

namespace ServerHealth

variable {h : ServerHealth} {pending pending' now now' : Nat}

/-- What an entry can be at a time, for a server that this round is still to ask as
often as `pending`. -/
def Fits (pending now : Nat) (h : ServerHealth) : Prop :=
  match h.lastSuccess with
  | none => 0 < h.consecutiveFailures ∧ h.consecutiveFailures + pending ≤ 3
  | some ts =>
      ts + healthCheckInterval * (h.consecutiveFailures + pending) ≤ now ∧
        h.consecutiveFailures + pending ≤ 120

@[simp] theorem fits_none {failures : Nat} :
    Fits pending now ⟨failures, none⟩ ↔ 0 < failures ∧ failures + pending ≤ 3 := Iff.rfl

@[simp] theorem fits_some {failures ts : Nat} :
    Fits pending now ⟨failures, some ts⟩ ↔
      ts + healthCheckInterval * (failures + pending) ≤ now ∧ failures + pending ≤ 120 := Iff.rfl

@[simp] theorem retained_none {failures : Nat} :
    retained now ⟨failures, none⟩ = true ↔ failures < 3 := decide_eq_true_iff

@[simp] theorem retained_some {failures ts : Nat} :
    retained now ⟨failures, some ts⟩ = true ↔ now ≤ ts + healthMaxAge := decide_eq_true_iff

@[simp] theorem failed_some {failures : Nat} {last : Option Nat} :
    failed (some ⟨failures, last⟩) = ⟨failures + 1, last⟩ := rfl

/-- Fewer pending checks, or more time, do no harm. -/
theorem Fits.mono (hfits : h.Fits pending now) (hpending : pending' ≤ pending)
    (hnow : now ≤ now') : h.Fits pending' now' := by
  obtain ⟨failures, _ | ts⟩ := h
  · rw [fits_none] at *
    omega
  · rw [fits_some] at *
    have := Nat.mul_le_mul_left healthCheckInterval (Nat.add_le_add_left hpending failures)
    omega

/-- An entry that has just been answered fits. -/
theorem fits_answered (now : Nat) : Fits 0 now ⟨0, some now⟩ :=
  ⟨Nat.le_refl _, Nat.zero_le _⟩

/-- One more failure uses up the check. -/
theorem fits_failed {health : Option ServerHealth} (hnow : now ≤ now')
    (hfits : ∀ h, health = some h → h.Fits 1 now) : (failed health).Fits 0 now' := by
  cases health with
  | none => exact ⟨Nat.one_pos, by decide⟩
  | some h =>
      have hfits := (hfits h rfl).mono (Nat.le_refl _) hnow
      obtain ⟨failures, _ | ts⟩ := h
      · rw [failed_some, fits_none]
        exact ⟨Nat.succ_pos _, hfits.2⟩
      · rwa [failed_some, fits_some]

/-- At the start of a round. That the task has slept makes room for one more failure. -/
theorem Fits.retained (hfits : h.Fits 0 now) (hslept : now + healthCheckInterval ≤ now')
    (hretained : h.retained now' = true) (hpending : pending ≤ 1) : h.Fits pending now' := by
  obtain ⟨failures, _ | ts⟩ := h
  · rw [fits_none] at *
    rw [retained_none] at hretained
    omega
  · rw [fits_some] at *
    rw [retained_some] at hretained
    unfold healthMaxAge healthCheckInterval nanos at *
    omega

end ServerHealth

namespace HealthChecks

variable {R : Type}

/-- What may happen next. -/
inductive Event (R : Type) where
  /-- `query_servers_concurrent` sorts its servers. -/
  | sort (servers : List IpAddr)
  /-- A query has been answered after `rttMs`. -/
  | measure (server : IpAddr) (rttMs : R) (now : Nat)
  /-- The task has slept and starts a round. -/
  | round (now : Nat)
  /-- There was no socket for a check. -/
  | skip (server : IpAddr)
  | answer (server : IpAddr) (rttMs : R) (now : Nat)
  /-- A check failed or timed out. -/
  | failure (server : IpAddr) (now : Nat)

/-- The round-trip time a server is sorted by. -/
def key (unknown : R) (rtt : RttTable R) (server : IpAddr) : R :=
  ((rtt.get? server).map (·.1)).getD unknown

/-- The table after its entries were looked up for sorting. -/
def lookedUp (ops : RttOps R) (unknown : R) (rtt : RttTable R) (servers : List IpAddr) :
    RttTable R :=
  (ops.lookups (key unknown rtt) servers).foldl Lru.touch rtt

/-- A measured round-trip time goes into the moving average of its server. -/
def recordRtt (ops : RttOps R) (rtt : RttTable R) (server : IpAddr) (rttMs : R) (now : Nat) :
    RttTable R :=
  match rtt.get? server with
  | some (avg, _) => rtt.put server (ops.smooth avg rttMs, now)
  | none => rtt.put server (rttMs, now)

/-- The penalty, for a server that still has a round-trip time. -/
def penaliseRtt (ops : RttOps R) (rtt : RttTable R) (server : IpAddr) (now : Nat) :
    RttTable R :=
  match rtt.get? server with
  | some (avg, _) => rtt.put server (ops.penalise avg, now)
  | none => rtt

/-- The servers of the table, the fastest first. -/
def sortedServers [LinearOrder R] (ops : RttOps R) (rtt : RttTable R) : List IpAddr :=
  (rtt.toList.map (·.1)).insertionSort fun a b =>
    key ops.unknownChecked rtt a ≤ key ops.unknownChecked rtt b

/-- The servers that a round chooses. -/
def chosen [LinearOrder R] (ops : RttOps R) (rtt : RttTable R) : List IpAddr :=
  (sortedServers ops rtt).take healthCheckCount

def step [LinearOrder R] (ops : RttOps R) (s : HealthChecks R) :
    Event R → Option (HealthChecks R)
  | .sort servers => some { s with rtt := lookedUp ops ops.unknownQueried s.rtt servers }
  | .measure server rttMs now => some { s with rtt := recordRtt ops s.rtt server rttMs now }
  | .round now =>
      if s.serversToCheck = [] ∧ s.now + healthCheckInterval ≤ now then
        some
          { health := fun ip => (s.health ip).filter (ServerHealth.retained now)
            serversToCheck := chosen ops s.rtt
            rtt := lookedUp ops ops.unknownChecked s.rtt (s.rtt.toList.map (·.1))
            now }
      else none
  | .skip server =>
      if s.serversToCheck.head? = some server then
        some { s with serversToCheck := s.serversToCheck.tail }
      else none
  | .answer server rttMs now =>
      if s.serversToCheck.head? = some server ∧ s.now ≤ now then
        some
          { health := Function.update s.health server (some ⟨0, some now⟩)
            serversToCheck := s.serversToCheck.tail
            rtt := recordRtt ops s.rtt server rttMs now
            now }
      else none
  | .failure server now =>
      if s.serversToCheck.head? = some server ∧ s.now ≤ now then
        let h := .failed (s.health server)
        some
          { health := Function.update s.health server (some h)
            serversToCheck := s.serversToCheck.tail
            rtt :=
              if healthPenaltyThreshold ≤ h.consecutiveFailures then
                penaliseRtt ops s.rtt server now
              else s.rtt
            now }
      else none

/-- The resolver has been made: no server has been checked. -/
def start (rtt : RttTable R) (now : Nat) : HealthChecks R := ⟨rtt, fun _ => none, [], now⟩

/-! ### What a step can do -/

section Steps

variable [LinearOrder R] {ops : RttOps R} {s s' : HealthChecks R} {e : Event R}

/-- Everything a step can do to the health table and the servers to check. -/
inductive Steps (ops : RttOps R) (s : HealthChecks R) : Event R → HealthChecks R → Prop where
  | sort {servers : List IpAddr} : Steps ops s (.sort servers)
      { s with rtt := lookedUp ops ops.unknownQueried s.rtt servers }
  | measure {server : IpAddr} {rttMs : R} {now : Nat} : Steps ops s (.measure server rttMs now)
      { s with rtt := recordRtt ops s.rtt server rttMs now }
  | round {now : Nat} : s.serversToCheck = [] → s.now + healthCheckInterval ≤ now →
      Steps ops s (.round now)
        { health := fun ip => (s.health ip).filter (ServerHealth.retained now)
          serversToCheck := chosen ops s.rtt
          rtt := lookedUp ops ops.unknownChecked s.rtt (s.rtt.toList.map (·.1))
          now }
  | skip {server : IpAddr} {rest : List IpAddr} : s.serversToCheck = server :: rest →
      Steps ops s (.skip server) { s with serversToCheck := rest }
  | answer {server : IpAddr} {rest : List IpAddr} {rttMs : R} {now : Nat} :
      s.serversToCheck = server :: rest → s.now ≤ now →
      Steps ops s (.answer server rttMs now)
        { health := Function.update s.health server (some ⟨0, some now⟩)
          serversToCheck := rest
          rtt := recordRtt ops s.rtt server rttMs now
          now }
  | failure {server : IpAddr} {rest : List IpAddr} {now : Nat} :
      s.serversToCheck = server :: rest → s.now ≤ now →
      Steps ops s (.failure server now)
        { health := Function.update s.health server (some (ServerHealth.failed (s.health server)))
          serversToCheck := rest
          rtt :=
            if 3 ≤ (ServerHealth.failed (s.health server)).consecutiveFailures then
              penaliseRtt ops s.rtt server now
            else s.rtt
          now }

/-- The inversion of `step`: what each event needs, and what it makes of the state. -/
theorem steps_of_step (h : s.step ops e = some s') : Steps ops s e s' := by
  have htail : ∀ {server}, s.serversToCheck.head? = some server →
      s.serversToCheck = server :: s.serversToCheck.tail := fun hhead =>
    (List.cons_head?_tail hhead).symm
  cases e with
  | sort servers =>
      cases h
      exact .sort
  | measure server rttMs now =>
      cases h
      exact .measure
  | round now =>
      simp only [step] at h
      split at h
      · rename_i hround
        cases h
        exact .round hround.1 hround.2
      · cases h
  | skip server =>
      simp only [step] at h
      split at h
      · rename_i hhead
        cases h
        exact .skip (htail hhead)
      · cases h
  | answer server rttMs now =>
      simp only [step] at h
      split at h
      · rename_i hcheck
        cases h
        exact .answer (htail hcheck.1) hcheck.2
      · cases h
  | failure server now =>
      simp only [step] at h
      split at h
      · rename_i hcheck
        cases h
        exact .failure (htail hcheck.1) hcheck.2
      · cases h

end Steps

/-! ### Bounds -/

section Bounds

variable [LinearOrder R] {ops : RttOps R} {s s' : HealthChecks R} {e : Event R}

/-- The state of the checks between two steps. -/
structure Bounded (s : HealthChecks R) : Prop where
  nodup : s.serversToCheck.Nodup
  few : s.serversToCheck.length ≤ 5
  fits : ∀ {ip h}, s.health ip = some h → h.Fits (s.serversToCheck.count ip) s.now

omit [LinearOrder R] in

/-- An empty table is within the bounds. -/
theorem bounded_start (rtt : RttTable R) (now : Nat) : Bounded (start rtt now) :=
  ⟨List.nodup_nil, Nat.zero_le _, fun h => by cases h⟩

/-- Sorting keeps the servers. -/
theorem mem_sortedServers {rtt : RttTable R} {server : IpAddr} :
    server ∈ sortedServers ops rtt ↔ server ∈ rtt.toList.map (·.1) := List.mem_insertionSort _

theorem pairwise_sortedServers (ops : RttOps R) (rtt : RttTable R) :
    (sortedServers ops rtt).Pairwise fun a b =>
      key ops.unknownChecked rtt a ≤ key ops.unknownChecked rtt b :=
  haveI : Std.Total fun a b => key ops.unknownChecked rtt a ≤ key ops.unknownChecked rtt b :=
    ⟨fun _ _ => le_total _ _⟩
  haveI : IsTrans IpAddr fun a b =>
      key ops.unknownChecked rtt a ≤ key ops.unknownChecked rtt b := ⟨fun _ _ _ => le_trans⟩
  List.pairwise_insertionSort _ _

/-- The table has each server once, so none is chosen twice. -/
theorem nodup_chosen (rtt : RttTable R) : (chosen ops rtt).Nodup :=
  (((List.perm_insertionSort _ _).nodup_iff).mpr rtt.nodup_keys).sublist (List.take_sublist _ _)

theorem length_chosen_le (rtt : RttTable R) : (chosen ops rtt).length ≤ 5 :=
  List.length_take_le _ _

omit [LinearOrder R] in
/-- A check is done: the entries of the other servers stay as they were. -/
theorem Bounded.update {server : IpAddr} {rest : List IpAddr} {now : Nat} {h : ServerHealth}
    (hs : Bounded s) (hto : s.serversToCheck = server :: rest) (hnow : s.now ≤ now)
    (hfits : h.Fits 0 now) {rtt : RttTable R} :
    Bounded ⟨rtt, Function.update s.health server (some h), rest, now⟩ := by
  have hnodup : server ∉ rest ∧ rest.Nodup := List.nodup_cons.mp (hto ▸ hs.nodup)
  refine ⟨hnodup.2, ?_, fun {ip h'} hip => ?_⟩
  · have hfew := hs.few
    rw [hto, List.length_cons] at hfew
    exact Nat.le_of_succ_le hfew
  · dsimp only at hip ⊢
    by_cases hserver : ip = server
    · subst hserver
      rw [Function.update_self, Option.some.injEq] at hip
      rw [← hip, List.count_eq_zero_of_not_mem hnodup.1]
      exact hfits
    · rw [Function.update_of_ne hserver] at hip
      refine (hs.fits hip).mono ?_ hnow
      rw [hto]
      exact List.count_le_count_cons

/-- **The step lemma**: each event keeps the bounds. -/
theorem Bounded.step (hs : Bounded s) (h : s.step ops e = some s') : Bounded s' := by
  cases steps_of_step h with
  | sort => exact ⟨hs.nodup, hs.few, hs.fits⟩
  | measure => exact ⟨hs.nodup, hs.few, hs.fits⟩
  | round hnone hslept =>
      refine ⟨nodup_chosen _, length_chosen_le _, fun {ip h} hip => ?_⟩
      obtain ⟨hentry, hretained⟩ := Option.filter_eq_some_iff.mp hip
      have hfits := hs.fits hentry
      rw [hnone, List.count_nil] at hfits
      exact hfits.retained hslept hretained (List.nodup_iff_count_le_one.mp (nodup_chosen _) ip)
  | @skip server rest hto =>
      have hless : ∀ ip, rest.count ip ≤ s.serversToCheck.count ip := fun ip => by
        rw [hto]
        exact List.count_le_count_cons
      have hnodup := hs.nodup
      have hfew := hs.few
      rw [hto] at hnodup hfew
      exact ⟨hnodup.of_cons, Nat.le_of_succ_le hfew,
        fun {ip h} hip => (hs.fits hip).mono (hless ip) (Nat.le_refl _)⟩
  | answer hto hnow => exact hs.update hto hnow (ServerHealth.fits_answered _)
  | @failure server rest now hto hnow =>
      refine hs.update hto hnow (ServerHealth.fits_failed hnow fun h hserver => ?_)
      have hpending : s.serversToCheck.count server = 1 :=
        List.count_eq_one_of_mem hs.nodup (hto ▸ List.mem_cons_self)
      exact hpending ▸ hs.fits hserver

/-- **The run lemma.** -/
theorem bounded_of_trace {rtt : RttTable R} {now : Nat} {events : List (Event R)}
    (hrun : Trace (step ops) (start rtt now) events s) : Bounded s :=
  hrun.invariant (bounded_start rtt now) fun hs h => hs.step h

omit [LinearOrder R] in

/-- A server that is in the table is sorted by its round-trip time. -/
theorem key_eq {unknown : R} {rtt : RttTable R} {server : IpAddr} {v : R × Nat}
    (h : rtt.get? server = some v) : key unknown rtt server = v.1 := by
  rw [key, h]
  rfl

theorem get?_of_mem_sortedServers {rtt : RttTable R} {server : IpAddr}
    (h : server ∈ sortedServers ops rtt) : ∃ v, rtt.get? server = some v :=
  Option.isSome_iff_exists.mp (Lru.get?_isSome_of_mem_keys (mem_sortedServers.mp h))

theorem mem_sortedServers_of_get? {rtt : RttTable R} {server : IpAddr} {v : R × Nat}
    (h : rtt.get? server = some v) : server ∈ sortedServers ops rtt :=
  mem_sortedServers.mpr (Lru.mem_keys_of_get? h)

/-- The servers that were not chosen are no faster. -/
theorem chosen_fastest {rtt : RttTable R} {server other : IpAddr} {v v' : R × Nat}
    (hchosen : server ∈ chosen ops rtt) (hserver : rtt.get? server = some v)
    (hother : rtt.get? other = some v') (hnot : other ∉ chosen ops rtt) : v.1 ≤ v'.1 := by
  have hsorted := pairwise_sortedServers ops rtt
  have hmem : other ∈ sortedServers ops rtt := mem_sortedServers_of_get? hother
  rw [← List.take_append_drop healthCheckCount (sortedServers ops rtt)] at hsorted hmem
  have hlater := (List.mem_append.mp hmem).resolve_left hnot
  have hle := (List.pairwise_append.mp hsorted).2.2 _ hchosen _ hlater
  rwa [key_eq hserver, key_eq hother] at hle

/-- **The checks stay bounded.** In every state that is reached at most five different
servers are still to ask, and no server has more than 120 failures in a row, or three
if it never answered. A round takes servers that have a round-trip time, and none that
it leaves out is faster. -/
theorem checks_bounded {rtt : RttTable R} {now : Nat} {events : List (Event R)}
    (hrun : Trace (step ops) (start rtt now) events s) :
    s.serversToCheck.Nodup ∧ s.serversToCheck.length ≤ 5 ∧
    (∀ server h, s.health server = some h → h.consecutiveFailures ≤ 120 ∧
      (h.lastSuccess = none → 0 < h.consecutiveFailures ∧ h.consecutiveFailures ≤ 3)) ∧
    ∀ now s', s.step ops (.round now) = some s' → ∀ server ∈ s'.serversToCheck,
      ∃ avg ts, s.rtt.get? server = some (avg, ts) ∧
        ∀ other avg' ts', s.rtt.get? other = some (avg', ts') → other ∉ s'.serversToCheck →
          avg ≤ avg' := by
  have hs := bounded_of_trace hrun
  refine ⟨hs.nodup, hs.few, fun server h hentry => ?_, fun now s' hround server hserver => ?_⟩
  · have hfits := (hs.fits hentry).mono (Nat.zero_le _) (Nat.le_refl _)
    obtain ⟨failures, _ | ts⟩ := h
    · rw [ServerHealth.fits_none] at hfits
      exact ⟨by dsimp only; omega, fun _ => hfits⟩
    · exact ⟨hfits.2, fun h => by cases h⟩
  · cases steps_of_step hround with
    | round =>
        obtain ⟨⟨avg, ts⟩, hget⟩ := get?_of_mem_sortedServers (List.mem_of_mem_take hserver)
        exact ⟨avg, ts, hget, fun other avg' ts' hother hnot =>
          chosen_fastest hserver hget hother hnot⟩

def sampleOps : RttOps Nat :=
  ⟨fun avg ms => (7 * avg + 3 * ms) / 10, (· + 2000), 500, 999, fun _ servers => servers⟩

def sampleServer (n : UInt8) : IpAddr := .v4 ⟨192, 0, 2, n⟩

/-- One server has a round-trip time of 10 ms. -/
def sampleStart : HealthChecks Nat :=
  start ((Lru.new 256 (by decide)).put (sampleServer 1) (10, 0)) 0

theorem checks_bounded_sample :
    ∃ s : HealthChecks Nat, s.health (sampleServer 1) = some ⟨1, none⟩ ∧
      s.serversToCheck.length ≤ 5 := by
  have hrun : [.round (nanos 30), .failure (sampleServer 1) (nanos 31)].foldlM
      (step sampleOps) sampleStart = some _ := rfl
  exact ⟨_, rfl, (checks_bounded (.of_foldlM hrun)).2.1⟩

end Bounds

/-! ### Penalties -/

section Penalties

variable [LinearOrder R] {ops : RttOps R} {s s' : HealthChecks R} {e : Event R}
  {events : List (Event R)} {server : IpAddr} {f t now : Nat}

/-- A check of the server has failed. -/
def Event.fails (server : IpAddr) : Event R → Bool
  | .failure ip _ => ip == server
  | _ => false

def Event.answers (server : IpAddr) : Event R → Bool
  | .answer ip _ _ => ip == server
  | _ => false

/-- What an event does to the entry of one server, whatever the other servers do. -/
inductive EntryStep (server : IpAddr) (entry : Option ServerHealth) :
    Event R → Option ServerHealth → Prop where
  | round {now : Nat} : EntryStep server entry (.round now) (entry.filter (·.retained now))
  | answer {rttMs : R} {now : Nat} :
      EntryStep server entry (.answer server rttMs now) (some ⟨0, some now⟩)
  | failure {now : Nat} : EntryStep server entry (.failure server now) (some (.failed entry))
  | other {e : Event R} : e.fails server = false → e.answers server = false →
      (∀ now, e ≠ .round now) → EntryStep server entry e entry

/-- One step changes the entry of one server in one of these ways. -/
theorem entryStep_of_step (h : s.step ops e = some s') (server : IpAddr) :
    EntryStep server (s.health server) e (s'.health server) := by
  cases steps_of_step h with
  | sort | measure | skip => exact .other rfl rfl fun _ h => by cases h
  | round => exact .round
  | @answer ip rest rttMs now =>
      dsimp only
      by_cases hip : server = ip
      · subst hip
        rw [Function.update_self]
        exact .answer
      · rw [Function.update_of_ne hip]
        exact .other rfl (beq_false_of_ne (Ne.symm hip)) fun _ h => by cases h
  | @failure ip rest now _ _ =>
      dsimp only
      by_cases hip : server = ip
      · subst hip
        rw [Function.update_self]
        exact .failure
      · rw [Function.update_of_ne hip]
        exact .other (beq_false_of_ne (Ne.symm hip)) rfl fun _ h => by cases h

omit [LinearOrder R] in

/-- A round only forgets entries, and keeps the others as they are. -/
theorem EntryStep.of_round {entry entry' : Option ServerHealth}
    (hstep : EntryStep server entry (.round now : Event R) entry') :
    entry' = entry.filter (·.retained now) := by
  cases hstep with
  | round => rfl
  | other _ _ hround => exact absurd rfl (hround now)

omit [LinearOrder R] in
@[simp] theorem fails_failure : (Event.failure server now : Event R).fails server = true := BEq.rfl

/-- After `f` failures of a server that had no entry and does not answer. A missing
entry is one without failures. -/
def Unanswered (f : Nat) (entry : Option ServerHealth) : Prop :=
  (entry.getD {}).lastSuccess = none ∧ (entry.getD {}).consecutiveFailures % 3 = f % 3

omit [LinearOrder R] in
/-- A round forgets an entry with three failures, which are then as none. -/
theorem unanswered_step {entry entry' : Option ServerHealth}
    (hbefore : Unanswered f entry) (hstep : EntryStep server entry e entry')
    (hfits : ∀ h, entry = some h → h.Fits 0 now) (hnever : e.answers server = false) :
    Unanswered (f + (e.fails server).toNat) entry' := by
  obtain ⟨hlast, hcount⟩ := hbefore
  cases hstep with
  | @round now =>
      cases entry with
      | none => exact ⟨hlast, hcount⟩
      | some h =>
          obtain ⟨failures, last⟩ := h
          cases hlast
          have hle : failures ≤ 3 := (hfits _ rfl).2
          by_cases hretained : failures < 3
          · rw [Option.filter_some, if_pos (by simpa using hretained)]
            exact ⟨rfl, hcount⟩
          · rw [Option.filter_some, if_neg (by simpa using hretained)]
            have hthree : failures = 3 := by omega
            rw [hthree] at hcount
            exact ⟨rfl, hcount⟩
  | answer => simp [Event.answers] at hnever
  | failure =>
      refine ⟨hlast, ?_⟩
      rw [fails_failure]
      simp only [ServerHealth.failed, Option.getD_some, Bool.toNat_true]
      omega
  | other hfails _ _ =>
      rw [hfails]
      exact ⟨hlast, hcount⟩

/-- The entry of a server since its answer at `t`, as long as this counts. -/
def AnsweredAt (t f : Nat) (entry : Option ServerHealth) : Prop := entry = some ⟨f, some t⟩

omit [LinearOrder R] in

/-- Within the hour of its answer an entry only counts failures. -/
theorem answeredAt_step {entry entry' : Option ServerHealth}
    (hbefore : AnsweredAt t f entry) (hstep : EntryStep server entry e entry')
    (hhour : ∀ {now}, e = .round now → now ≤ t + healthMaxAge)
    (hnever : e.answers server = false) :
    AnsweredAt t (f + (e.fails server).toNat) entry' := by
  subst hbefore
  cases hstep with
  | @round now =>
      rw [Option.filter_some, if_pos (by simpa using hhour rfl)]
      rfl
  | answer => simp [Event.answers] at hnever
  | failure =>
      rw [fails_failure]
      rfl
  | other hfails _ _ =>
      rw [hfails]
      rfl

/-- A server whose check fails is among those to ask, once. -/
theorem Bounded.fits_failure {h : ServerHealth} (hs : Bounded s)
    (hstep : s.step ops (.failure server now) = some s') (hentry : s.health server = some h) :
    h.Fits 1 s.now := by
  refine (hs.fits hentry).mono ?_ (Nat.le_refl _)
  cases steps_of_step hstep with
  | failure hto =>
      rw [hto]
      exact List.count_pos_iff.mpr List.mem_cons_self

/-- The events that count, with one more. -/
theorem countP_snoc {ε : Type} (q : ε → Bool) (events : List ε) (e : ε) :
    (events ++ [e]).countP q = events.countP q + (q e).toNat := by
  rw [List.countP_append, List.countP_singleton]
  cases q e <;> rfl

/-- Along a run in which the server never answers. -/
theorem unanswered_trace (hrun : Trace (step ops) s events s') (hs : Bounded s)
    (hnone : s.health server = none) (hnever : ∀ e ∈ events, e.answers server = false) :
    Bounded s' ∧ Unanswered (events.countP (·.fails server)) (s'.health server) := by
  induction hrun with
  | start => exact ⟨hs, by rw [hnone]; exact ⟨rfl, rfl⟩⟩
  | step _ he ih =>
      obtain ⟨hbounded, hunanswered⟩ := ih fun e h => hnever e (List.mem_append_left _ h)
      refine ⟨hbounded.step he, ?_⟩
      rw [countP_snoc]
      exact unanswered_step hunanswered (entryStep_of_step he server)
        (fun h hentry => (hbounded.fits hentry).mono (Nat.zero_le _) (Nat.le_refl _))
        (hnever _ (List.mem_append_right _ List.mem_cons_self))

/-- Along a run within the hour of an answer. -/
theorem answeredAt_trace (hrun : Trace (step ops) s events s')
    (hanswered : s.health server = some ⟨0, some t⟩)
    (hhour : ∀ {now}, .round now ∈ events → now ≤ t + healthMaxAge)
    (hnever : ∀ e ∈ events, e.answers server = false) :
    AnsweredAt t (events.countP (·.fails server)) (s'.health server) := by
  induction hrun with
  | start => exact hanswered
  | step _ he ih =>
      have hbefore := ih (fun h => hhour (List.mem_append_left _ h))
        fun e h => hnever e (List.mem_append_left _ h)
      rw [countP_snoc]
      exact answeredAt_step hbefore (entryStep_of_step he server)
        (fun h => hhour (h ▸ List.mem_append_right _ List.mem_cons_self))
        (hnever _ (List.mem_append_right _ List.mem_cons_self))

/-- What a failed check of the server does to the round-trip times `before`: the time
of the server is raised if `due` and if there is one, and nothing else changes. -/
structure PenalisedIf (ops : RttOps R) (due : Prop) (server : IpAddr) (now : Nat)
    (before after : RttTable R) : Prop where
  raised : due → ∀ avg ts, before.get? server = some (avg, ts) →
    after.get? server = some (ops.penalise avg, now)
  evicted : before.get? server = none → after = before
  spared : ¬ due → after = before
  others : ∀ ip, ip ≠ server → after.get? ip = before.get? ip

omit [LinearOrder R] in
/-- The code penalises with the third failure in a row and with every one behind it. -/
theorem penalisedIf_ite (ops : RttOps R) {due : Prop} {failures : Nat} (rtt : RttTable R)
    (server : IpAddr) (now : Nat) (h : 3 ≤ failures ↔ due) :
    PenalisedIf ops due server now rtt
      (if 3 ≤ failures then penaliseRtt ops rtt server now else rtt) := by
  by_cases hdue : due
  · rw [if_pos (h.mpr hdue)]
    unfold penaliseRtt
    cases hget : rtt.get? server with
    | none =>
        refine ⟨fun _ avg ts hsome => ?_, fun _ => rfl, fun _ => rfl, fun _ _ => rfl⟩
        rw [hget] at hsome
        cases hsome
    | some entry =>
        obtain ⟨avg, ts⟩ := entry
        refine ⟨fun _ avg' ts' hsome => ?_, fun hnone => ?_, fun hnot => absurd hdue hnot,
          fun ip hip => Lru.get?_put_of_mem (by simp [hget]) hip⟩
        · rw [hget] at hsome
          cases hsome
          exact Lru.get?_put_self
        · rw [hget] at hnone
          cases hnone
  · rw [if_neg fun hthree => hdue (h.mp hthree)]
    exact ⟨fun h => absurd h hdue, fun _ => rfl, fun _ => rfl, fun _ _ => rfl⟩

/-- A failed check penalises with the third failure that the entry counts. -/
theorem penalisedIf_of_step {due : Prop} (h : s.step ops (.failure server now) = some s')
    (hdue : 3 ≤ (ServerHealth.failed (s.health server)).consecutiveFailures ↔ due) :
    PenalisedIf ops due server now s.rtt s'.rtt := by
  cases steps_of_step h with
  | failure => exact penalisedIf_ite ops s.rtt server now hdue

/-- **Which failed checks raise a round-trip time.** For a server that has no entry and
does not answer it is every third one. For one that answers at `t` and then no more it
is every one but the first two, as long as rounds start within the hour, and every
third one counted from the first round behind it. -/
theorem penalties_accounted {rtt : RttTable R} {start now : Nat} {before : List (Event R)}
    {mid : HealthChecks R} (hbefore : Trace (step ops) (.start rtt start) before s)
    (hrun : Trace (step ops) s events mid) (hnever : ∀ e ∈ events, e.answers server = false)
    (hfailure : mid.step ops (.failure server now) = some s') :
    (s.health server = none →
      PenalisedIf ops (3 ∣ events.countP (·.fails server) + 1) server now mid.rtt s'.rtt) ∧
    ∀ t, s.health server = some ⟨0, some t⟩ →
      ((∀ round, .round round ∈ events → round ≤ t + healthMaxAge) →
        PenalisedIf ops (2 ≤ events.countP (·.fails server)) server now mid.rtt s'.rtt) ∧
      ∀ early round late, events = early ++ .round round :: late →
        (∀ earlier, .round earlier ∈ early → earlier ≤ t + healthMaxAge) →
        t + healthMaxAge < round →
        PenalisedIf ops (3 ∣ late.countP (·.fails server) + 1) server now mid.rtt s'.rtt := by
  have hs := bounded_of_trace hbefore
  have hthird : ∀ {first : HealthChecks R} {events : List (Event R)}, Bounded first →
      first.health server = none → Trace (step ops) first events mid →
      (∀ e ∈ events, e.answers server = false) →
      PenalisedIf ops (3 ∣ events.countP (·.fails server) + 1) server now mid.rtt s'.rtt := by
    intro first events hfirst hnone hrun hnever
    obtain ⟨hbounded, hlast, hcount⟩ := unanswered_trace hrun hfirst hnone hnever
    refine penalisedIf_of_step hfailure ?_
    have hfew : ((mid.health server).getD {}).consecutiveFailures < 3 := by
      cases hentry : mid.health server with
      | none => exact Nat.zero_lt_succ _
      | some h =>
          have hfits := hbounded.fits_failure hfailure hentry
          rw [hentry] at hlast
          obtain ⟨failures, last⟩ := h
          cases hlast
          exact hfits.2
    simp only [ServerHealth.failed]
    omega
  refine ⟨fun hnone => hthird hs hnone hrun hnever, fun t hanswered => ⟨fun hhour => ?_, ?_⟩⟩
  · have hsome := answeredAt_trace hrun hanswered (hhour _) hnever
    refine penalisedIf_of_step hfailure ?_
    rw [hsome, ServerHealth.failed_some]
    exact Nat.succ_le_succ_iff
  · rintro early round late rfl hearly hround
    obtain ⟨last, hfirst, hrest⟩ := hrun.split
    obtain ⟨first, hstep, hrest⟩ := hrest.of_cons
    have hsome := answeredAt_trace hfirst hanswered (hearly _)
      fun e h => hnever e (List.mem_append_left _ h)
    have hbounded : Bounded first := (hfirst.invariant hs fun hs h => hs.step h).step hstep
    refine hthird hbounded ?_ hrest fun e h =>
      hnever e (List.mem_append_right _ (List.mem_cons_of_mem _ h))
    rw [(entryStep_of_step hstep server).of_round, hsome, Option.filter_some,
      if_neg (by simpa using hround)]

/-- A server that has answered its first check. -/
def sampleAnswered : HealthChecks Nat :=
  ([.round (nanos 30), .answer (sampleServer 1) 12 (nanos 31)].foldlM (step sampleOps)
    sampleStart).getD sampleStart

/-- Two failures of its checks, and one more round. -/
def sampleFailures : List (Event Nat) :=
  [.round (nanos 62), .failure (sampleServer 1) (nanos 63),
    .round (nanos 93), .failure (sampleServer 1) (nanos 94), .round (nanos 124)]

/-- The third check is still to fail. -/
def sampleFailed : HealthChecks Nat :=
  (sampleFailures.foldlM (step sampleOps) sampleAnswered).getD sampleAnswered

/-- The third failure makes 2010 ms of 10 ms. -/
theorem penalties_accounted_sample :
    ∃ s', sampleFailed.step sampleOps (.failure (sampleServer 1) (nanos 125)) = some s' ∧
      sampleFailed.rtt.get? (sampleServer 1) = some (10, nanos 31) ∧
      s'.rtt.get? (sampleServer 1) = some (2010, nanos 125) := by
  have hbefore : [.round (nanos 30), .answer (sampleServer 1) 12 (nanos 31)].foldlM
      (step sampleOps) sampleStart = some sampleAnswered := rfl
  have hrun : sampleFailures.foldlM (step sampleOps) sampleAnswered = some sampleFailed := rfl
  have hfailure : sampleFailed.step sampleOps (.failure (sampleServer 1) (nanos 125)) =
      some _ := rfl
  have hpenalised := ((penalties_accounted (.of_foldlM hbefore) (.of_foldlM hrun) (by decide)
    hfailure).2 (nanos 31) rfl).1 (by simp [sampleFailures, nanos, healthMaxAge])
  exact ⟨_, hfailure, rfl, hpenalised.raised (by decide) 10 (nanos 31) rfl⟩

end Penalties

/-! ### Entries that stay -/

section Growth

variable [LinearOrder R] {ops : RttOps R} {s s' : HealthChecks R} {server ip : IpAddr}
  {rtt : RttTable R} {rttMs : R} {now : Nat}

omit [LinearOrder R] in
@[simp] theorem get?_lookedUp {unknown : R} {servers : List IpAddr} :
    (lookedUp ops unknown rtt servers).get? ip = rtt.get? ip := Lru.get?_foldl_touch

omit [LinearOrder R] in

/-- The first time that is recorded is kept as it is. -/
theorem recordRtt_of_none (h : rtt.get? server = none) :
    recordRtt ops rtt server rttMs now = rtt.put server (rttMs, now) := by
  rw [recordRtt, h]

omit [LinearOrder R] in

/-- A later one is smoothed. -/
theorem recordRtt_of_some {v : R × Nat} (h : rtt.get? server = some v) :
    recordRtt ops rtt server rttMs now = rtt.put server (ops.smooth v.1 rttMs, now) := by
  rw [recordRtt, h]

/-- The one fastest server comes first. -/
theorem chosen_eq_cons {v : R × Nat} (hserver : rtt.get? server = some v)
    (hleast : ∀ ip v', ip ≠ server → rtt.get? ip = some v' → v.1 < v'.1) :
    ∃ rest, chosen ops rtt = server :: rest := by
  have hsorted := pairwise_sortedServers ops rtt
  have hmem : server ∈ sortedServers ops rtt := mem_sortedServers_of_get? hserver
  have hget : ∀ ip ∈ sortedServers ops rtt, ∃ v, rtt.get? ip = some v :=
    fun _ => get?_of_mem_sortedServers
  unfold chosen
  cases hsort : sortedServers ops rtt with
  | nil => rw [hsort] at hmem; cases hmem
  | cons first rest =>
      rw [hsort] at hmem hsorted hget
      by_cases hfirst : first = server
      · exact ⟨rest.take 4, by rw [hfirst]; rfl⟩
      · have hle := List.rel_of_pairwise_cons hsorted
          ((List.mem_cons.mp hmem).resolve_left (Ne.symm hfirst))
        obtain ⟨v', hv'⟩ := hget first List.mem_cons_self
        rw [key_eq hv', key_eq hserver] at hle
        exact absurd (hleast first v' hfirst hv') (not_lt_of_ge hle)

/-- `server_rtt` when no round-trip times were loaded. -/
def emptyRtt : RttTable R := Lru.new 256 (by decide)

/-- Between two rounds: each of the servers in `done` failed its only check, and only
they have round-trip times, all of them more than `fast`. -/
structure Left (fast : R) (done : List IpAddr) (s : HealthChecks R) : Prop where
  idle : s.serversToCheck = []
  known : ∀ {ip v}, s.rtt.get? ip = some v → ip ∈ done ∧ fast < v.1
  health : ∀ ip, s.health ip = if ip ∈ done then some ⟨1, none⟩ else none

/-- At the start nothing is left over. -/
theorem left_start (fast : R) (now : Nat) : Left fast [] (start emptyRtt now) :=
  ⟨rfl, fun h => by simp [start, emptyRtt] at h, fun _ => rfl⟩

/-- No socket for any of the remaining checks. -/
theorem run_skips (servers : List IpAddr) (h : s.serversToCheck = servers) :
    Trace (step ops) s (servers.map .skip) { s with serversToCheck := [] } := by
  induction servers generalizing s with
  | nil =>
      obtain ⟨rtt, health, servers, now⟩ := s
      cases h
      exact .start
  | cons server rest ih =>
      have hskip : s.step ops (.skip server) = some { s with serversToCheck := rest } := by
        simp [step, h]
      exact (Trace.single hskip).trans (ih rfl)

/-- A round asks the fastest server, which fails to answer, and has no socket for the
others. -/
theorem run_failedCheck (ops : RttOps R) {v : R × Nat} (hidle : s.serversToCheck = [])
    (hserver : s.rtt.get? server = some v)
    (hleast : ∀ ip v', ip ≠ server → s.rtt.get? ip = some v' → v.1 < v'.1)
    (hnone : s.health server = none)
    (hretained : ∀ ip, (s.health ip).filter
      (ServerHealth.retained (s.now + healthCheckInterval)) = s.health ip) :
    ∃ events s', Trace (step ops) s events s' ∧ s'.serversToCheck = [] ∧
      (∀ ip, s'.rtt.get? ip = s.rtt.get? ip) ∧
      s'.health = Function.update s.health server (some ⟨1, none⟩) := by
  have hfirst : ∃ rest, chosen ops s.rtt = server :: rest := chosen_eq_cons hserver hleast
  obtain ⟨rest, hchosen⟩ := hfirst
  let rtt := lookedUp ops ops.unknownChecked s.rtt (s.rtt.toList.map (·.1))
  have hround : s.step ops (.round (s.now + healthCheckInterval)) =
      some ⟨rtt, s.health, server :: rest, s.now + healthCheckInterval⟩ := by
    simp [step, hidle, hchosen, rtt, hretained]
  have hfail : step ops ⟨rtt, s.health, server :: rest, s.now + healthCheckInterval⟩
      (.failure server (s.now + healthCheckInterval)) =
        some ⟨rtt, Function.update s.health server (some ⟨1, none⟩), rest,
          s.now + healthCheckInterval⟩ := by
    simp [step, hnone, ServerHealth.failed, healthPenaltyThreshold]
  exact ⟨_, _, ((Trace.single hround).trans (.single hfail)).trans (run_skips rest rfl), rfl,
    fun ip => get?_lookedUp, rfl⟩

/-- One more server answers a query fast, fails its check and answers slowly. -/
theorem Left.more {fast slow : R} {done : List IpAddr} (hs : Left fast done s)
    (hslow : fast < ops.smooth fast slow) (hserver : server ∉ done) :
    ∃ events s', Trace (step ops) s events s' ∧ Left fast (server :: done) s' := by
  have hnew : s.rtt.get? server = none := by
    by_contra h
    obtain ⟨v, hv⟩ := Option.ne_none_iff_exists'.mp h
    exact hserver (hs.known hv).1
  have hother : ∀ {rtt : RttTable R} {v ip v'}, ip ≠ server →
      (rtt.put server v).get? ip = some v' → rtt.get? ip = some v' := fun hne hv =>
    (Lru.get?_put_ne hne).resolve_right (by rw [hv]; simp) ▸ hv
  have hmeasure : s.step ops (.measure server fast 0) =
      some { s with rtt := s.rtt.put server (fast, 0) } := by
    rw [step, recordRtt_of_none hnew]
  -- Now the server has the least round-trip time.
  obtain ⟨events, mid, hcheck, hidle, hrtt, hhealth⟩ :=
    run_failedCheck ops (s := { s with rtt := s.rtt.put server (fast, 0) }) hs.idle
      Lru.get?_put_self (fun ip v hne hv => (hs.known (hother hne hv)).2)
      (by rw [hs.health, if_neg hserver])
      fun ip => by
        rw [hs.health]
        split <;> rfl
  have hslowly : mid.step ops (.measure server slow 0) =
      some { mid with rtt := mid.rtt.put server (ops.smooth fast slow, 0) } := by
    rw [step, recordRtt_of_some ((hrtt server).trans Lru.get?_put_self)]
  refine ⟨_, _, ((Trace.single hmeasure).trans hcheck).trans (.single hslowly), hidle,
    fun {ip v} hv => ?_, fun ip => ?_⟩
  · by_cases hip : ip = server
    · subst hip
      rw [Lru.get?_put_self, Option.some.injEq] at hv
      rw [← hv]
      exact ⟨List.mem_cons_self, hslow⟩
    · obtain ⟨hdone, hlarge⟩ := hs.known (hother hip (hrtt ip ▸ hother hip hv))
      exact ⟨List.mem_cons_of_mem _ hdone, hlarge⟩
  · dsimp only
    rw [hhealth]
    by_cases hip : ip = server
    · subst hip
      simp
    · simp [hip, hs.health]

/-- By induction on the servers: each fails once and is then out of the choice. -/
theorem left_of_nodup {fast slow : R} (hslow : fast < ops.smooth fast slow) (now : Nat)
    {servers : List IpAddr} (hnodup : servers.Nodup) :
    ∃ events s, Trace (step ops) (start emptyRtt now) events s ∧ Left fast servers s := by
  induction servers with
  | nil => exact ⟨[], _, .start, left_start fast now⟩
  | cons server rest ih =>
      obtain ⟨hserver, hrest⟩ := List.nodup_cons.mp hnodup
      obtain ⟨events, s, hrun, hs⟩ := ih hrest
      obtain ⟨more, s', hmore, hs'⟩ := hs.more hslow hserver
      exact ⟨events ++ more, s', hrun.trans hmore, hs'⟩

omit [LinearOrder R] in
/-- An entry with one or two failures and no answer is not forgotten. -/
theorem kept_step {e : Event R} {entry : Option ServerHealth} {failures : Nat}
    (hstep : EntryStep server (some ⟨failures, none⟩) e entry) (hfew : failures < 3)
    (hunchecked : e.fails server = false ∧ e.answers server = false) :
    entry = some ⟨failures, none⟩ := by
  cases hstep with
  | round => rw [Option.filter_some, if_pos (by simpa using hfew)]
  | answer => simp [Event.answers] at hunchecked
  | failure => simp at hunchecked
  | other => rfl

/-- Along a run in which the server is not checked its entry stays. -/
theorem kept_trace {events : List (Event R)} {failures : Nat}
    (hrun : Trace (step ops) s events s') (hentry : s.health server = some ⟨failures, none⟩)
    (hfew : failures < 3)
    (hunchecked : ∀ e ∈ events, e.fails server = false ∧ e.answers server = false) :
    s'.health server = some ⟨failures, none⟩ := by
  induction hrun with
  | start => exact hentry
  | step _ he ih =>
      have hbefore := ih fun e h => hunchecked e (List.mem_append_left _ h)
      exact kept_step (hbefore ▸ entryStep_of_step he server) hfew
        (hunchecked _ (List.mem_append_right _ List.mem_cons_self))

/-- **The health table is not bounded.** Any number of servers can get an entry that is
never forgotten, however long the task runs, as long as they are not checked again: it
takes an answer to a query, one failed check, and a slower answer. -/
theorem health_unbounded {fast slow : R} (hslow : fast < ops.smooth fast slow) (now : Nat)
    {servers : List IpAddr} (hnodup : servers.Nodup) :
    ∃ events s, Trace (step ops) (start emptyRtt now) events s ∧
      ∀ later s', Trace (step ops) s later s' → ∀ server ∈ servers,
        (∀ e ∈ later, e.fails server = false ∧ e.answers server = false) →
          s'.health server = some ⟨1, none⟩ := by
  obtain ⟨events, s, hrun, hs⟩ := left_of_nodup hslow now hnodup
  refine ⟨events, s, hrun, fun later s' hlater server hserver hunchecked => ?_⟩
  exact kept_trace hlater (by rw [hs.health, if_pos hserver]) (by decide) hunchecked

theorem health_unbounded_sample :
    ∃ events s, Trace (step sampleOps) (start emptyRtt 0) events s ∧
      ∀ later s', Trace (step sampleOps) s later s' →
        ∀ server ∈ [sampleServer 1, sampleServer 2],
          (∀ e ∈ later, e.fails server = false ∧ e.answers server = false) →
            s'.health server = some ⟨1, none⟩ :=
  health_unbounded (show 10 < sampleOps.smooth 10 20 by decide) 0 (by decide)

end Growth

end HealthChecks

end FastDns.Resolver
