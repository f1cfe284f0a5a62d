/-
`query_servers_concurrent` (`src/resolver/recursive.rs`) as a transition system:
one task for each server, with a UDP socket of its own, and a TCP connection
where the answer was truncated or is known to be.

The oracle `queryServersConcurrent` of the resolver stands for any result of
this system. Here is what such a result has gone through. Datagrams may come
from anyone in any order, the tasks and those of other queries interleave, and a
step may fail where an operation of the source can. The order of the servers (by
round-trip time) and the time-outs are left open.

The truncation cache is behind a lock. A task that goes straight to TCP holds it
until it has its answer, and no other task gets past its first step meanwhile; the
locks on the pool and on the round-trip times are held within one step.

The only check on a datagram is its id (`exchange_sound`); what comes over TCP is
not compared with the query at all, but it comes from the server.
-/

import FastDns.Dns.RoundTrip
import FastDns.Dnssec.ChainOfTrust
import FastDns.Resolver.Chain

namespace FastDns.Resolver

open FastDns.Lib FastDns.Dns FastDns.Dnssec

/-! ### TCP connections -/

def dnsPort : UInt16 := 53

/-- `TCP_POOL_PER_SERVER` -/
def tcpPoolPerServer : Nat := 2

/-- `TCP_POOL_IDLE_TIMEOUT` -/
def tcpPoolIdleTimeout : Nat := nanos 60

/-- `TRUNCATION_CACHE_TTL` -/
def truncationCacheTtl : Nat := nanos 300

/-- A connection: its other end, and what has come from there and was not read. -/
structure TcpStream where
  peer : SocketAddr
  incoming : Bytes

/-- `TcpPool`: the idle connections of each server, with the time of their last
use. -/
abbrev TcpPool := IpAddr → List (TcpStream × Nat)

namespace TcpPool

def isIdle (now : Nat) (entry : TcpStream × Nat) : Bool := now - entry.2 < tcpPoolIdleTimeout

/-- `TcpPool::acquire`: the last connection that has not expired. -/
def acquire (pool : TcpPool) (now : Nat) (server : IpAddr) : Option TcpStream × TcpPool :=
  let kept := (pool server).rdropWhile fun entry => !isIdle now entry
  (kept.getLast?.map Prod.fst, Function.update pool server kept.dropLast)

/-- `TcpPool::release` -/
def release (pool : TcpPool) (now : Nat) (server : IpAddr) (stream : TcpStream) : TcpPool :=
  let streams := (pool server).filter (isIdle now)
  Function.update pool server
    (if streams.length < tcpPoolPerServer then streams ++ [(stream, now)] else streams)

/-- `TcpPool::cleanup` -/
def cleanup (pool : TcpPool) (now : Nat) : TcpPool := fun server =>
  (pool server).filter (isIdle now)

end TcpPool

/-- What `query_via_tcp_pool` finds on its connection. -/
inductive FrameRead where
  | partly
  | refused
  | whole (data rest : Bytes)

/-- The two reads of `query_via_tcp_pool`: the length, then the message. -/
def readFrame (incoming : Bytes) : FrameRead :=
  if incoming.length < 2 then .partly
  else
    let responseLen := (u16At incoming 0).toNat
    if responseLen = 0 ∨ responseLen > 65535 then .refused
    else if incoming.length < 2 + responseLen then .partly
    else .whole ((incoming.drop 2).take responseLen) (incoming.drop (2 + responseLen))

/-! ### Tasks -/

structure Datagram where
  sender : SocketAddr
  bytes : Bytes

/-- What `recv_from` puts into the buffer. -/
def Datagram.received (d : Datagram) : Bytes := d.bytes.take 8192

/-- Where a task is. `fallback` is what it returns if TCP fails: the truncated message,
or nothing if the server is in the truncation cache. In the second case the task holds
the lock on this cache. -/
inductive Phase where
  | spawned
  | waiting
  | truncated (m : Message)
  | connecting (fallback : Option Message)
  | exchanging (fallback : Option Message) (stream : TcpStream)
  | measuring (m : Message)
  | finished (result : Option Message)
  | hung (locked : Bool)

/-- The task holds the lock on the truncation cache. -/
def Phase.holds : Phase → Bool
  | .connecting none => true
  | .exchanging none _ => true
  | .measuring _ => true
  | .hung locked => locked
  | _ => false

/-- A task. The last two fields are no part of the program: they record what came
over UDP, and the message that came over TCP. -/
structure Task where
  server : IpAddr
  phase : Phase
  heard : List Datagram
  framed : Option (SocketAddr × Bytes)

/-- Who has the lock on the truncation cache: nobody, a task of the call, or one of
another call. -/
inductive Holder where
  | nobody
  | call
  | others
deriving DecidableEq, Repr

/-- What all tasks share. -/
structure Net where
  pool : TcpPool
  truncation : IpAddr → Option Nat
  lock : Holder

/-- A task that has gone straight to TCP, with nothing to fall back on, drops the lock. -/
def Net.unlock (net : Net) : Option Message → Net
  | none => { net with lock := .nobody }
  | some _ => net

/-- What may happen to a task. The flags say whether the calls on the socket
succeed. -/
inductive TaskEvent where
  | start (sent : Bool)
  | datagram (d : Datagram)
  | receiveFails
  | timeout
  | note (now : Nat)
  | connect (now : Nat) (connected : Bool)
  | arrive (bytes : Bytes)
  | read (now : Nat)
  | tcpFails
  | measured

namespace Task

def spawn (server : IpAddr) : Task := ⟨server, .spawned, [], none⟩

/-- `decode_message(..).ok()`, as the result of the task. A task that panics has no
result. -/
def ending (decoded : DnsResult Message) : Phase :=
  match decoded with
  | .ok m => .finished (some m)
  | .err _ => .finished none
  | .panic => .finished none
  | .diverge => .hung false

/-- The same where the lock is held: it is kept for the measurement of the round-trip
time, and by a task that hangs. -/
def endingDirect (decoded : DnsResult Message) (net : Net) : Phase × Net :=
  match decoded with
  | .ok m => (.measuring m, net)
  | .err _ => (.finished none, net.unlock none)
  | .panic => (.finished none, net.unlock none)
  | .diverge => (.hung true, net)

/-- One round of the receive loop. -/
def receive (expectedId : UInt16) (t : Task) (d : Datagram) : Task :=
  let t := { t with heard := t.heard ++ [d] }
  if d.received.length ≥ 2 ∧ u16At d.received 0 = expectedId then
    match decodeMessage d.received with
    | .ok m =>
        if m.header.tc then { t with phase := .truncated m }
        else { t with phase := .finished (some m) }
    | decoded => { t with phase := ending decoded }
  else t

/-- One step of the task. -/
def step (expectedId : UInt16) (t : Task) (net : Net) : TaskEvent → Option (Task × Net)
  | .start sent =>
      match t.phase with
      | .spawned =>
          if net.lock ≠ .nobody then none
          else if (net.truncation t.server).isSome then
            some ({ t with phase := .connecting none }, { net with lock := .call })
          else if sent then some ({ t with phase := .waiting }, net)
          else some ({ t with phase := .finished none }, net)
      | _ => none
  | .datagram d =>
      match t.phase with
      | .waiting => some (t.receive expectedId d, net)
      | _ => none
  | .receiveFails =>
      match t.phase with
      | .waiting => some ({ t with phase := .finished none }, net)
      | _ => none
  | .timeout =>
      match t.phase with
      | .waiting => some ({ t with phase := .finished none }, net)
      | _ => none
  | .note now =>
      match t.phase with
      | .truncated m =>
          if net.lock ≠ .nobody then none
          else
            let truncation :=
              Function.update net.truncation t.server (some (now + truncationCacheTtl))
            some ({ t with phase := .connecting (some m) }, { net with truncation })
      | _ => none
  | .connect now connected =>
      match t.phase with
      | .connecting fallback =>
          let (pooled, pool) := net.pool.acquire now t.server
          let net := { net with pool }
          match pooled with
          | some stream => some ({ t with phase := .exchanging fallback stream }, net)
          | none =>
              if connected then
                some ({ t with phase := .exchanging fallback ⟨⟨t.server, dnsPort⟩, []⟩ }, net)
              else some ({ t with phase := .finished fallback }, net.unlock fallback)
      | _ => none
  | .arrive bytes =>
      match t.phase with
      | .exchanging fallback stream =>
          let stream := { stream with incoming := stream.incoming ++ bytes }
          some ({ t with phase := .exchanging fallback stream }, net)
      | _ => none
  | .read now =>
      match t.phase with
      | .exchanging fallback stream =>
          match readFrame stream.incoming with
          | .partly => none
          | .refused => some ({ t with phase := .finished fallback }, net.unlock fallback)
          | .whole data rest =>
              let stream := { stream with incoming := rest }
              let t := { t with framed := some (stream.peer, data) }
              let net := { net with pool := net.pool.release now t.server stream }
              match fallback with
              | some _ => some ({ t with phase := ending (decodeMessage data) }, net)
              | none =>
                  let (phase, net) := endingDirect (decodeMessage data) net
                  some ({ t with phase }, net)
      | _ => none
  | .tcpFails =>
      match t.phase with
      | .exchanging fallback _ =>
          some ({ t with phase := .finished fallback }, net.unlock fallback)
      | _ => none
  | .measured =>
      match t.phase with
      | .measuring m => some ({ t with phase := .finished (some m) }, net.unlock none)
      | _ => none

/-- Everything a step of a task can do. -/
inductive Steps (expectedId : UInt16) (t : Task) (net : Net) : TaskEvent → Task → Net → Prop where
  | direct {sent : Bool} : t.phase = .spawned → net.lock = .nobody →
      (net.truncation t.server).isSome →
      Steps expectedId t net (.start sent) { t with phase := .connecting none }
        { net with lock := .call }
  | send : t.phase = .spawned → net.lock = .nobody → net.truncation t.server = none →
      Steps expectedId t net (.start true) { t with phase := .waiting } net
  | unsent : t.phase = .spawned → net.lock = .nobody → net.truncation t.server = none →
      Steps expectedId t net (.start false) { t with phase := .finished none } net
  | datagram {d : Datagram} : t.phase = .waiting →
      Steps expectedId t net (.datagram d) (t.receive expectedId d) net
  | receiveFails : t.phase = .waiting →
      Steps expectedId t net .receiveFails { t with phase := .finished none } net
  | timeout : t.phase = .waiting →
      Steps expectedId t net .timeout { t with phase := .finished none } net
  | note {m : Message} {now : Nat} : t.phase = .truncated m → net.lock = .nobody →
      Steps expectedId t net (.note now) { t with phase := .connecting (some m) }
        { net with truncation :=
            Function.update net.truncation t.server (some (now + truncationCacheTtl)) }
  | pooled {fallback : Option Message} {stream : TcpStream} {now : Nat} {connected : Bool} :
      t.phase = .connecting fallback → (net.pool.acquire now t.server).1 = some stream →
      Steps expectedId t net (.connect now connected)
        { t with phase := .exchanging fallback stream }
        { net with pool := (net.pool.acquire now t.server).2 }
  | connected {fallback : Option Message} {now : Nat} : t.phase = .connecting fallback →
      (net.pool.acquire now t.server).1 = none →
      Steps expectedId t net (.connect now true)
        { t with phase := .exchanging fallback ⟨⟨t.server, dnsPort⟩, []⟩ }
        { net with pool := (net.pool.acquire now t.server).2 }
  | unconnected {fallback : Option Message} {now : Nat} : t.phase = .connecting fallback →
      (net.pool.acquire now t.server).1 = none →
      Steps expectedId t net (.connect now false) { t with phase := .finished fallback }
        (Net.unlock { net with pool := (net.pool.acquire now t.server).2 } fallback)
  | arrive {fallback : Option Message} {stream : TcpStream} {bytes : Bytes} :
      t.phase = .exchanging fallback stream →
      Steps expectedId t net (.arrive bytes)
        { t with phase :=
            .exchanging fallback { stream with incoming := stream.incoming ++ bytes } } net
  | refused {fallback : Option Message} {stream : TcpStream} {now : Nat} :
      t.phase = .exchanging fallback stream → readFrame stream.incoming = .refused →
      Steps expectedId t net (.read now) { t with phase := .finished fallback }
        (net.unlock fallback)
  | read {m : Message} {stream : TcpStream} {data rest : Bytes} {now : Nat} :
      t.phase = .exchanging (some m) stream → readFrame stream.incoming = .whole data rest →
      Steps expectedId t net (.read now)
        { t with phase := ending (decodeMessage data), framed := some (stream.peer, data) }
        { net with pool := net.pool.release now t.server { stream with incoming := rest } }
  | readDirect {stream : TcpStream} {data rest : Bytes} {now : Nat} {phase : Phase} {net' : Net} :
      t.phase = .exchanging none stream → readFrame stream.incoming = .whole data rest →
      endingDirect (decodeMessage data)
        { net with pool := net.pool.release now t.server { stream with incoming := rest } } =
          (phase, net') →
      Steps expectedId t net (.read now)
        { t with phase, framed := some (stream.peer, data) } net'
  | tcpFails {fallback : Option Message} {stream : TcpStream} :
      t.phase = .exchanging fallback stream →
      Steps expectedId t net .tcpFails { t with phase := .finished fallback }
        (net.unlock fallback)
  | measured {m : Message} : t.phase = .measuring m →
      Steps expectedId t net .measured { t with phase := .finished (some m) } (net.unlock none)

end Task

/-! ### The call -/

/-- A call of `query_servers_concurrent`. -/
structure Exchange where
  tasks : List Task
  net : Net
  /-- The tasks whose results were not looked at. -/
  pending : List Nat
  /-- What was returned, if the call has returned. -/
  returned : Option (Option Message)

/-- A step of a task, of the loop around `select_all`, or of the rest of the
program: the tasks of other queries and the clean-up. -/
inductive ExchangeEvent where
  | task (i : Nat) (e : TaskEvent)
  | select (i : Nat)
  | othersAcquire (now : Nat) (server : IpAddr)
  | othersRelease (now : Nat) (server : IpAddr) (incoming : Bytes)
  | othersTruncate (server : IpAddr) (expiry : Nat)
  | othersLock
  | othersUnlock
  | cleanPool (now : Nat)
  | cleanTruncation (now : Nat)

namespace Exchange

def start (servers : List IpAddr) : Exchange where
  tasks := servers.map Task.spawn
  net := ⟨fun _ => [], fun _ => none, .nobody⟩
  pending := List.range servers.length
  returned := if servers.isEmpty then some none else none

/-- One round of the loop around `select_all`. -/
def select (x : Exchange) (i : Nat) (result : Option Message) : Exchange :=
  match result with
  | some m => { x with returned := some (some m), pending := x.pending.erase i }
  | none =>
      { x with
        pending := x.pending.erase i
        returned := if (x.pending.erase i).isEmpty then some none else none }

def step (expectedId : UInt16) (x : Exchange) : ExchangeEvent → Option Exchange
  | .task i e => do
      let t ← x.tasks[i]?
      let (t, net) ← t.step expectedId x.net e
      pure { x with tasks := x.tasks.set i t, net }
  | .select i =>
      if i ∈ x.pending ∧ x.returned = none then
        match x.tasks[i]? with
        | some ⟨_, .finished result, _, _⟩ => some (x.select i result)
        | _ => none
      else none
  | .othersAcquire now server =>
      some { x with net := { x.net with pool := (x.net.pool.acquire now server).2 } }
  | .othersRelease now server incoming =>
      some { x with net := { x.net with
        pool := x.net.pool.release now server ⟨⟨server, dnsPort⟩, incoming⟩ } }
  | .othersTruncate server expiry =>
      if x.net.lock ≠ .nobody then none
      else some { x with net := { x.net with
        truncation := Function.update x.net.truncation server (some expiry) } }
  | .othersLock =>
      if x.net.lock ≠ .nobody then none
      else some { x with net := { x.net with lock := .others } }
  | .othersUnlock =>
      if x.net.lock ≠ .others then none
      else some { x with net := { x.net with lock := .nobody } }
  | .cleanPool now => some { x with net := { x.net with pool := x.net.pool.cleanup now } }
  | .cleanTruncation now =>
      if x.net.lock ≠ .nobody then none
      else some { x with net := { x.net with
        truncation := fun server => (x.net.truncation server).filter fun expiry => expiry > now } }

/-- The states of all runs. The servers stand in the order in which they are
asked. -/
inductive Reached (expectedId : UInt16) (servers : List IpAddr) : Exchange → Prop where
  | start {sorted : List IpAddr} : sorted.Perm servers → Reached expectedId servers (start sorted)
  | step {x x' : Exchange} {e : ExchangeEvent} : Reached expectedId servers x →
      x.step expectedId e = some x' → Reached expectedId servers x'

end Exchange

/-! ### Where a message comes from -/

/-- The datagram has the id of the query. -/
def Datagram.Matches (expectedId : UInt16) (d : Datagram) : Prop :=
  2 ≤ d.received.length ∧ u16At d.received 0 = expectedId

/-- The last datagram is the first one with the id of the query, and it is read as
`m`. -/
def Accepted (expectedId : UInt16) (heard : List Datagram) (m : Message) : Prop :=
  ∃ before d, heard = before ++ [d] ∧ (∀ x ∈ before, ¬ x.Matches expectedId) ∧
    d.Matches expectedId ∧ decodeMessage d.received = .ok m

namespace Task

/-- The message of an accepted datagram. It is truncated only where TCP failed. -/
def FromDatagram (expectedId : UInt16) (t : Task) (m : Message) : Prop :=
  Accepted expectedId t.heard m ∧ (m.header.tc = true → t.framed = none)

/-- A message from a connection to the server, without a datagram or after a
truncated one. -/
def FromFrame (expectedId : UInt16) (t : Task) (m : Message) : Prop :=
  ∃ frame, t.framed = some (⟨t.server, dnsPort⟩, frame) ∧ decodeMessage frame = .ok m ∧
    (t.heard = [] ∨ ∃ m', Accepted expectedId t.heard m' ∧ m'.header.tc = true)

/-- What a task that goes over to TCP has to fall back on. -/
def FallsBack (expectedId : UInt16) (t : Task) (fallback : Option Message) : Prop :=
  t.framed = none ∧ ((fallback = none ∧ t.heard = []) ∨
    ∃ m, fallback = some m ∧ Accepted expectedId t.heard m ∧ m.header.tc = true)

/-- What is known of a task in each phase. -/
def Sound (expectedId : UInt16) (t : Task) : Prop :=
  match t.phase with
  | .spawned => t.heard = [] ∧ t.framed = none
  | .waiting => (∀ d ∈ t.heard, ¬ d.Matches expectedId) ∧ t.framed = none
  | .truncated m => t.FallsBack expectedId (some m)
  | .connecting fallback => t.FallsBack expectedId fallback
  | .exchanging fallback stream =>
      t.FallsBack expectedId fallback ∧ stream.peer = ⟨t.server, dnsPort⟩
  | .measuring m => t.FromFrame expectedId m
  | .finished result =>
      ∀ m, result = some m → t.FromDatagram expectedId m ∨ t.FromFrame expectedId m
  | .hung _ => True

end Task

/-- Every idle connection of a server goes to it. -/
def TcpPool.Genuine (pool : TcpPool) : Prop :=
  ∀ server, ∀ entry ∈ pool server, entry.1.peer = ⟨server, dnsPort⟩

namespace TcpPool

variable {pool : TcpPool} {now : Nat} {server : IpAddr} {stream : TcpStream}

/-- A change of one server's connections. -/
theorem Genuine.update {entries : List (TcpStream × Nat)} (h : pool.Genuine)
    (hentries : ∀ entry ∈ entries, entry.1.peer = ⟨server, dnsPort⟩) :
    Genuine (Function.update pool server entries) := by
  intro other entry hentry
  by_cases hother : other = server
  · subst hother
    rw [Function.update_self] at hentry
    exact hentries entry hentry
  · rw [Function.update_of_ne hother] at hentry
    exact h other entry hentry

theorem mem_of_mem_rdropWhile {entry : TcpStream × Nat} {p : TcpStream × Nat → Bool}
    {entries : List (TcpStream × Nat)} (h : entry ∈ entries.rdropWhile p) : entry ∈ entries :=
  (List.rdropWhile_prefix p _).sublist.mem h

/-- What the pool hands out leads to the server it was asked for. -/
theorem Genuine.acquire (h : pool.Genuine) (now : Nat) (server : IpAddr) :
    (pool.acquire now server).2.Genuine ∧
      ∀ stream, (pool.acquire now server).1 = some stream → stream.peer = ⟨server, dnsPort⟩ := by
  constructor
  · refine h.update fun entry hentry => ?_
    exact h server entry (mem_of_mem_rdropWhile (List.mem_of_mem_dropLast hentry))
  · intro stream hstream
    obtain ⟨entry, hlast, rfl⟩ := Option.map_eq_some_iff.mp hstream
    exact h server entry (mem_of_mem_rdropWhile (List.mem_of_getLast? hlast))

/-- A stream goes back under the server it leads to. -/
theorem Genuine.release (h : pool.Genuine) (hstream : stream.peer = ⟨server, dnsPort⟩) :
    (pool.release now server stream).Genuine := by
  have hkept : ∀ entry ∈ (pool server).filter (isIdle now), entry.1.peer = ⟨server, dnsPort⟩ :=
    fun entry hentry => h server entry (List.mem_of_mem_filter hentry)
  refine h.update fun entry hentry => ?_
  split at hentry
  · rcases List.mem_append.mp hentry with hold | hnew
    · exact hkept entry hold
    · rw [List.mem_singleton.mp hnew]
      exact hstream
  · exact hkept entry hentry

/-- Cleaning up only takes streams out. -/
theorem Genuine.cleanup (h : pool.Genuine) : (pool.cleanup now).Genuine :=
  fun server entry hentry => h server entry (List.mem_of_mem_filter hentry)

end TcpPool

/-! ### Steps -/

/-- An accepted datagram has the expected identifier. -/
theorem Accepted.id {expectedId : UInt16} {heard : List Datagram} {m : Message}
    (h : Accepted expectedId heard m) : m.header.id = expectedId := by
  obtain ⟨_, d, _, _, hmatches, hdecode⟩ := h
  rw [(header_eq_ok.mp (decodeMessage_header hdecode)).id]
  exact hmatches.2

namespace Task

variable {expectedId : UInt16} {t : Task} {net : Net}

/-- The task keeps what it falls back on if TCP fails. -/
theorem FallsBack.finished {fallback : Option Message} (h : t.FallsBack expectedId fallback) :
    Sound expectedId { t with phase := .finished fallback } := by
  intro m hm
  subst hm
  obtain ⟨hframed, ⟨hnone, _⟩ | ⟨m', hm', haccepted, _⟩⟩ := h
  · cases hnone
  · cases hm'
    exact .inl ⟨haccepted, fun _ => hframed⟩

/-- A task without a reply has nothing to answer for. -/
theorem sound_none : Sound expectedId { t with phase := .finished none } := by
  intro m hm
  cases hm

/-- What a task ends with is a message it has decoded. -/
theorem sound_ending {decoded : DnsResult Message}
    (h : ∀ m, decoded = .ok m → t.FromDatagram expectedId m ∨ t.FromFrame expectedId m) :
    Sound expectedId { t with phase := ending decoded } := by
  cases decoded with
  | ok m =>
      intro m' hm'
      cases hm'
      exact h m rfl
  | err e => exact sound_none
  | panic => exact sound_none
  | diverge => exact trivial

/-- The same with the lock, where a message is measured first. -/
theorem sound_endingDirect {decoded : DnsResult Message} {phase : Phase} {net' : Net}
    (hending : endingDirect decoded net = (phase, net'))
    (h : ∀ m, decoded = .ok m → t.FromFrame expectedId m) :
    Sound expectedId { t with phase := phase } := by
  cases decoded with
  | ok m =>
      cases hending
      exact h m rfl
  | err e =>
      cases hending
      exact sound_none
  | panic =>
      cases hending
      exact sound_none
  | diverge =>
      cases hending
      exact trivial

@[simp] theorem pool_unlock (net : Net) (fallback : Option Message) :
    (net.unlock fallback).pool = net.pool := by
  cases fallback <;> rfl

/-- The lock is all that the end of a task changes. -/
theorem pool_endingDirect {decoded : DnsResult Message} {phase : Phase} {net' : Net}
    (hending : endingDirect decoded net = (phase, net')) : net'.pool = net.pool := by
  cases decoded <;> cases hending <;> rfl

/-- A datagram with another id is ignored. -/
theorem receive_ignores {d : Datagram} (h : ¬ d.Matches expectedId) :
    t.receive expectedId d = { t with heard := t.heard ++ [d] } := by
  unfold receive
  exact if_neg h

/-- What the first datagram with the id makes of the task. -/
theorem receive_sound (d : Datagram) (hphase : t.phase = .waiting) (ht : t.Sound expectedId) :
    (t.receive expectedId d).Sound expectedId ∧ (t.receive expectedId d).server = t.server := by
  rw [Sound, hphase] at ht
  obtain ⟨hheard, hframed⟩ := ht
  by_cases hmatches : d.Matches expectedId
  · have haccepted : ∀ m, decodeMessage d.received = .ok m →
        Accepted expectedId (t.heard ++ [d]) m :=
      fun m hm => ⟨t.heard, d, rfl, hheard, hmatches, hm⟩
    have hcheck : d.received.length ≥ 2 ∧ u16At d.received 0 = expectedId := hmatches
    unfold receive
    dsimp only
    rw [if_pos hcheck]
    split
    · rename_i m hm
      split
      · rename_i htc
        exact ⟨⟨hframed, .inr ⟨m, rfl, haccepted m hm, htc⟩⟩, rfl⟩
      · refine ⟨fun m' hm' => ?_, rfl⟩
        cases hm'
        exact .inl ⟨haccepted m hm, fun _ => hframed⟩
    · refine ⟨sound_ending (t := { t with heard := t.heard ++ [d] }) fun m hm => ?_, rfl⟩
      exact .inl ⟨haccepted m hm, fun _ => hframed⟩
  · rw [receive_ignores hmatches]
    refine ⟨?_, rfl⟩
    rw [Sound, hphase]
    refine ⟨fun x hx => ?_, hframed⟩
    rcases List.mem_append.mp hx with hold | hnew
    · exact hheard x hold
    · rw [List.mem_singleton.mp hnew]
      exact hmatches

/-- The inversion of `step`: the phase each event needs, and what it makes of the task. -/
theorem steps_of_step {t' : Task} {net' : Net} {e : TaskEvent}
    (h : t.step expectedId net e = some (t', net')) : Steps expectedId t net e t' net' := by
  cases e with
  | start sent =>
      simp only [step] at h
      split at h
      · rename_i hphase
        split at h
        · cases h
        rename_i hlock
        have hfree : net.lock = .nobody := not_not.mp hlock
        split at h
        · rename_i hsome
          cases h
          exact .direct hphase hfree hsome
        rename_i hnone
        have htruncation : net.truncation t.server = none := by simpa using hnone
        cases sent with
        | true =>
            cases h
            exact .send hphase hfree htruncation
        | false =>
            cases h
            exact .unsent hphase hfree htruncation
      · cases h
  | datagram d =>
      simp only [step] at h
      split at h
      · rename_i hphase
        cases h
        exact .datagram hphase
      · cases h
  | receiveFails =>
      simp only [step] at h
      split at h
      · rename_i hphase
        cases h
        exact .receiveFails hphase
      · cases h
  | timeout =>
      simp only [step] at h
      split at h
      · rename_i hphase
        cases h
        exact .timeout hphase
      · cases h
  | note now =>
      simp only [step] at h
      split at h
      · rename_i m hphase
        split at h
        · cases h
        · rename_i hlock
          cases h
          exact .note hphase (not_not.mp hlock)
      · cases h
  | connect now connected =>
      simp only [step] at h
      split at h
      · rename_i fallback hphase
        split at h
        · rename_i stream hstream
          cases h
          exact .pooled hphase hstream
        · rename_i hnone
          cases connected with
          | true =>
              cases h
              exact .connected hphase hnone
          | false =>
              cases h
              exact .unconnected hphase hnone
      · cases h
  | arrive bytes =>
      simp only [step] at h
      split at h
      · rename_i fallback stream hphase
        cases h
        exact .arrive hphase
      · cases h
  | read now =>
      simp only [step] at h
      split at h
      · rename_i fallback stream hphase
        split at h
        · cases h
        · rename_i hrefused
          cases h
          exact .refused hphase hrefused
        · rename_i data rest hwhole
          cases fallback with
          | some m =>
              cases h
              exact .read hphase hwhole
          | none =>
              cases h
              exact .readDirect hphase hwhole rfl
      · cases h
  | tcpFails =>
      simp only [step] at h
      split at h
      · rename_i fallback stream hphase
        cases h
        exact .tcpFails hphase
      · cases h
  | measured =>
      simp only [step] at h
      split at h
      · rename_i m hphase
        cases h
        exact .measured hphase
      · cases h

/-- The message in a frame answers for the task that reads it. -/
theorem FallsBack.fromFrame {fallback : Option Message} (h : t.FallsBack expectedId fallback)
    {peer : SocketAddr} (hpeer : peer = ⟨t.server, dnsPort⟩) {data : Bytes} {m : Message}
    (hm : decodeMessage data = .ok m) :
    FromFrame expectedId { t with framed := some (peer, data) } m := by
  refine ⟨data, congrArg (fun peer => some (peer, data)) hpeer, hm, ?_⟩
  rcases h.2 with ⟨_, hheard⟩ | ⟨m', _, haccepted, htc⟩
  · exact .inl hheard
  · exact .inr ⟨m', haccepted, htc⟩

/-- **Every step keeps what is known of a task**, and the connections in the pool
genuine. -/
theorem step_sound {t' : Task} {net' : Net} {e : TaskEvent}
    (hstep : t.step expectedId net e = some (t', net')) (ht : t.Sound expectedId)
    (hpool : net.pool.Genuine) :
    t'.Sound expectedId ∧ net'.pool.Genuine ∧ t'.server = t.server := by
  cases steps_of_step hstep with
  | direct hphase =>
      rw [Sound, hphase] at ht
      exact ⟨⟨ht.2, .inl ⟨rfl, ht.1⟩⟩, hpool, rfl⟩
  | send hphase =>
      rw [Sound, hphase] at ht
      refine ⟨⟨fun d hd => ?_, ht.2⟩, hpool, rfl⟩
      rw [ht.1] at hd
      exact absurd hd List.not_mem_nil
  | unsent | receiveFails | timeout => exact ⟨sound_none, hpool, rfl⟩
  | datagram hphase =>
      obtain ⟨hsound, hserver⟩ := receive_sound _ hphase ht
      exact ⟨hsound, hpool, hserver⟩
  | note hphase =>
      rw [Sound, hphase] at ht
      exact ⟨ht, hpool, rfl⟩
  | pooled hphase hstream =>
      rw [Sound, hphase] at ht
      obtain ⟨hacquired, hgenuine⟩ := hpool.acquire _ t.server
      exact ⟨⟨ht, hgenuine _ hstream⟩, hacquired, rfl⟩
  | connected hphase =>
      rw [Sound, hphase] at ht
      exact ⟨⟨ht, rfl⟩, (hpool.acquire _ t.server).1, rfl⟩
  | unconnected hphase =>
      rw [Sound, hphase] at ht
      refine ⟨ht.finished, ?_, rfl⟩
      rw [pool_unlock]
      exact (hpool.acquire _ t.server).1
  | arrive hphase =>
      rw [Sound, hphase] at ht
      exact ⟨⟨ht.1, ht.2⟩, hpool, rfl⟩
  | refused hphase | tcpFails hphase =>
      rw [Sound, hphase] at ht
      exact ⟨ht.1.finished, (pool_unlock net _).symm ▸ hpool, rfl⟩
  | @read m stream data rest now hphase =>
      rw [Sound, hphase] at ht
      obtain ⟨hfallback, hpeer⟩ := ht
      exact ⟨sound_ending fun m hm => .inr (hfallback.fromFrame hpeer hm), hpool.release hpeer, rfl⟩
  | @readDirect stream data rest now phase _ hphase _ hending =>
      rw [Sound, hphase] at ht
      obtain ⟨hfallback, hpeer⟩ := ht
      refine ⟨sound_endingDirect hending fun m => hfallback.fromFrame hpeer, ?_, rfl⟩
      rw [pool_endingDirect hending]
      exact hpool.release hpeer
  | measured hphase =>
      rw [Sound, hphase] at ht
      refine ⟨fun m' hm' => ?_, hpool, rfl⟩
      cases hm'
      exact .inr ht

end Task

namespace Exchange

variable {expectedId : UInt16} {servers : List IpAddr} {x : Exchange}

/-- What is known of a call. -/
structure Inv (expectedId : UInt16) (servers : List IpAddr) (x : Exchange) : Prop where
  tasks : ∀ t ∈ x.tasks, t.Sound expectedId ∧ t.server ∈ servers
  pool : x.net.pool.Genuine
  returned : ∀ m, x.returned = some (some m) → ∃ t ∈ x.tasks, t.phase = .finished (some m)

/-- The tasks are in the order of the sorted servers. -/
theorem inv_start {sorted : List IpAddr} (h : sorted.Perm servers) :
    Inv expectedId servers (start sorted) := by
  refine ⟨fun t ht => ?_, fun _ _ hentry => absurd hentry List.not_mem_nil, fun m hm => ?_⟩
  · obtain ⟨server, hserver, rfl⟩ := List.mem_map.mp ht
    exact ⟨⟨rfl, rfl⟩, h.mem_iff.mp hserver⟩
  · unfold start at hm
    dsimp only at hm
    split at hm <;> cases hm

/-- A finished task takes no further step. -/
theorem finished_stays {t : Task} {net : Net} {e : TaskEvent} {result : Option Message}
    (h : t.phase = .finished result) : t.step expectedId net e = none := by
  cases e <;> simp [Task.step, h]

/-- A step of a task concerns that task and the pool only. -/
theorem inv_task {i : Nat} {e : TaskEvent} {x' : Exchange} (h : Inv expectedId servers x)
    (hstep : x.step expectedId (.task i e) = some x') : Inv expectedId servers x' := by
  obtain ⟨t, ht, hstep⟩ := Option.bind_eq_some_iff.mp hstep
  obtain ⟨⟨t', net'⟩, ht', hstep⟩ := Option.bind_eq_some_iff.mp hstep
  cases hstep
  have hmem := List.mem_of_getElem? ht
  obtain ⟨hsound, hpool, hserver⟩ := Task.step_sound ht' (h.tasks t hmem).1 h.pool
  refine ⟨fun other hother => ?_, hpool, fun m hm => ?_⟩
  · rcases List.mem_or_eq_of_mem_set hother with hold | rfl
    · exact h.tasks other hold
    · exact ⟨hsound, hserver ▸ (h.tasks t hmem).2⟩
  · obtain ⟨done, hdone, hfinished⟩ := h.returned m hm
    obtain ⟨j, hj⟩ := List.mem_iff_getElem?.mp hdone
    have hne : i ≠ j := by
      rintro rfl
      obtain rfl := Option.some.inj (ht.symm.trans hj)
      rw [finished_stays hfinished] at ht'
      cases ht'
    refine ⟨done, List.mem_of_getElem? (i := j) ?_, hfinished⟩
    rw [List.getElem?_set_ne hne]
    exact hj

/-- The reply that is returned is the one of a finished task. -/
theorem inv_select {i : Nat} {x' : Exchange} (h : Inv expectedId servers x)
    (hstep : x.step expectedId (.select i) = some x') : Inv expectedId servers x' := by
  unfold step at hstep
  dsimp only at hstep
  split at hstep
  · split at hstep
    · rename_i server result heard framed htask
      cases hstep
      unfold select
      cases result with
      | some m =>
          refine ⟨h.tasks, h.pool, fun m' hm' => ?_⟩
          cases hm'
          exact ⟨_, List.mem_of_getElem? htask, rfl⟩
      | none =>
          refine ⟨h.tasks, h.pool, fun m' hm' => ?_⟩
          dsimp only at hm'
          split at hm' <;> cases hm'
    · cases hstep
  · cases hstep

/-- **The step lemma.** -/
theorem inv_step {e : ExchangeEvent} {x' : Exchange} (h : Inv expectedId servers x)
    (hstep : x.step expectedId e = some x') : Inv expectedId servers x' := by
  cases e with
  | task i e => exact inv_task h hstep
  | select i => exact inv_select h hstep
  | othersAcquire now server =>
      cases hstep
      exact ⟨h.tasks, (h.pool.acquire now server).1, h.returned⟩
  | othersRelease now server incoming =>
      cases hstep
      exact ⟨h.tasks, h.pool.release rfl, h.returned⟩
  | othersTruncate server expiry | othersLock | othersUnlock | cleanTruncation now =>
      obtain ⟨_, hstep⟩ := Option.ite_none_left_eq_some.mp hstep
      cases hstep
      exact ⟨h.tasks, h.pool, h.returned⟩
  | cleanPool now =>
      cases hstep
      exact ⟨h.tasks, h.pool.cleanup, h.returned⟩

/-- **The run lemma.** -/
theorem reached_inv (h : Reached expectedId servers x) : Inv expectedId servers x := by
  induction h with
  | start hperm => exact inv_start hperm
  | step _ hstep ih => exact inv_step ih hstep

/-- What the id, and nothing else, decides about the replies. -/
structure AcceptsById (expectedId : UInt16) (servers : List IpAddr) (x : Exchange) : Prop where
  /-- The message for a server is the first datagram with the id, or came over a
  connection to the server. -/
  results : ∀ t ∈ x.tasks, t.server ∈ servers ∧ ∀ m, t.phase = .finished (some m) →
    (t.FromDatagram expectedId m ∧ m.header.id = expectedId) ∨ t.FromFrame expectedId m
  /-- The returned message is that of a server. -/
  returned : ∀ m, x.returned = some (some m) → ∃ t ∈ x.tasks, t.phase = .finished (some m)
  /-- Datagrams with other ids are ignored and do not end the wait. -/
  ignored : ∀ i t d, x.tasks[i]? = some t → t.phase = .waiting → ¬ d.Matches expectedId →
    x.step expectedId (.task i (.datagram d)) =
      some { x with tasks := x.tasks.set i { t with heard := t.heard ++ [d] } }
  /-- A datagram with the id that cannot be decoded ends the wait. -/
  undecodable : ∀ i t d e, x.tasks[i]? = some t → t.phase = .waiting →
    d.Matches expectedId → decodeMessage d.received = .err e →
    x.step expectedId (.task i (.datagram d)) = some { x with
      tasks := x.tasks.set i { t with heard := t.heard ++ [d], phase := .finished none } }

theorem step_datagram {i : Nat} {t : Task} {d : Datagram} (ht : x.tasks[i]? = some t)
    (hphase : t.phase = .waiting) :
    x.step expectedId (.task i (.datagram d)) = some { x with
      tasks := x.tasks.set i (t.receive expectedId d) } := by
  simp [step, ht, Task.step, hphase]

/-- **How replies are accepted**, in every state of every run. -/
theorem exchange_sound (expectedId : UInt16) (servers : List IpAddr) (x : Exchange)
    (h : Reached expectedId servers x) : AcceptsById expectedId servers x := by
  have hinv := reached_inv h
  refine ⟨fun t ht => ⟨(hinv.tasks t ht).2, fun m hm => ?_⟩, hinv.returned, ?_, ?_⟩
  · have hsound := (hinv.tasks t ht).1
    rw [Task.Sound, hm] at hsound
    rcases hsound m rfl with hdatagram | hframe
    · exact .inl ⟨hdatagram, hdatagram.1.id⟩
    · exact .inr hframe
  · intro i t d ht hphase hother
    rw [step_datagram ht hphase, Task.receive_ignores hother]
  · intro i t d e ht hphase hmatches hdecode
    have hcheck : d.received.length ≥ 2 ∧ u16At d.received 0 = expectedId := hmatches
    rw [step_datagram ht hphase, Task.receive]
    dsimp only
    rw [if_pos hcheck, hdecode]
    rfl

/-! ### A stranger's datagram -/

/-- The server that is asked. -/
def askedServer : IpAddr := .v4 ⟨198, 41, 0, 4⟩

/-- Neither a response nor about the name in the query, and from somewhere else:
a query of its own for the address of `b`, with the id 7. -/
def straySample : Datagram where
  sender := ⟨.v4 ⟨203, 0, 113, 9⟩, 4444⟩
  bytes := [0, 7, 1, 0, 0, 1, 0, 0, 0, 0, 0, 0, 1, 98, 0, 0, 1, 0, 1]

def strayMessage : Message :=
  ⟨{ Header.newQuery 7 true with qdcount := 1 }, [⟨[1, 98, 0], 1, 1⟩], [], [], []⟩

/-- The call has returned the stranger's message. -/
def strayExchange : Exchange where
  tasks := [⟨askedServer, .finished (some strayMessage), [straySample], none⟩]
  net := ⟨fun _ => [], fun _ => none, .nobody⟩
  pending := []
  returned := some (some strayMessage)

theorem reached_strayExchange : Reached 7 [askedServer] strayExchange := by
  have hwaiting : Reached 7 [askedServer] { start [askedServer] with
      tasks := [⟨askedServer, .waiting, [], none⟩] } :=
    .step (e := .task 0 (.start true)) (.start (.refl _)) rfl
  have hreceived : Reached 7 [askedServer] { start [askedServer] with
      tasks := [⟨askedServer, .finished (some strayMessage), [straySample], none⟩] } :=
    .step (e := .task 0 (.datagram straySample)) hwaiting rfl
  exact .step (e := .select 0) hreceived rfl

theorem exchange_sound_stray :
    Reached 7 [askedServer] strayExchange ∧ AcceptsById 7 [askedServer] strayExchange :=
  ⟨reached_strayExchange, exchange_sound 7 [askedServer] strayExchange reached_strayExchange⟩

/-- The message that is returned in answer to a query for the address of `a`. -/
theorem stray_datagram_accepted :
    (∃ query, buildQueryStatic [1, 97, 0] 1 1 7 false false = .ok query) ∧
    Reached 7 [askedServer] strayExchange ∧
      strayExchange.returned = some (some strayMessage) ∧
      (∀ t ∈ strayExchange.tasks, ∀ d ∈ t.heard, d.sender ≠ ⟨askedServer, dnsPort⟩) ∧
      strayMessage.header.qr = false ∧
      ∀ q ∈ strayMessage.questions, domainNamesEqual q.qname [1, 97, 0] = false :=
  ⟨buildQueryStatic_of_length (by decide) 1 1 7 false false, reached_strayExchange, rfl,
    by decide, rfl, by decide⟩

end Exchange

end FastDns.Resolver
