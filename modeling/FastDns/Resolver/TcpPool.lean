/-
The pool of TCP connections over whole runs (`TcpPool` in
`src/resolver/recursive.rs`).

A `TcpStream` of the exchange model is what can be seen of a connection; two
connections may look the same. Here they can be told apart: they are the
elements of any type, and `TcpPool` is the pool with each connection replaced by
what it looks like (`acquire_look`, `release_look`, `cleanup_look`). Calls may
come in any order at times that do not go back. A connection is moved into
`release`, so it is not in the pool when it is released.
-/

import FastDns.Lib.IdlePool
import FastDns.Resolver.Exchange

namespace FastDns.Resolver

open FastDns.Lib FastDns.Dns

/-- `TcpPool`, for connections that can be told apart. -/
abbrev ConnectionPool (Stream : Type) := IdlePool IpAddr Stream

namespace ConnectionPool

variable {Stream : Type}

/-- `TcpPool::acquire` -/
def acquire (pool : ConnectionPool Stream) (now : Nat) (server : IpAddr) :
    Option Stream × ConnectionPool Stream :=
  IdlePool.acquire tcpPoolIdleTimeout pool now server

/-- `TcpPool::release` -/
def release (pool : ConnectionPool Stream) (now : Nat) (server : IpAddr) (stream : Stream) :
    ConnectionPool Stream :=
  IdlePool.release tcpPoolIdleTimeout tcpPoolPerServer pool now server stream

/-- `TcpPool::cleanup` -/
def cleanup (pool : ConnectionPool Stream) (now : Nat) : ConnectionPool Stream :=
  IdlePool.cleanup tcpPoolIdleTimeout pool now

/-- The pool of the exchange model: what its connections look like. -/
def looks (look : Stream → TcpStream) (pool : ConnectionPool Stream) : TcpPool :=
  IdlePool.map look pool

section Looks

variable (look : Stream → TcpStream) (pool : ConnectionPool Stream) (now : Nat) (server : IpAddr)

theorem acquire_look : (pool.looks look).acquire now server =
    ((pool.acquire now server).1.map look, (pool.acquire now server).2.looks look) :=
  IdlePool.acquire_map look

theorem release_look (stream : Stream) :
    (pool.looks look).release now server (look stream) =
      (pool.release now server stream).looks look :=
  IdlePool.release_map look

theorem cleanup_look : (pool.looks look).cleanup now = (pool.cleanup now).looks look :=
  IdlePool.cleanup_map look

end Looks

/-- The pools of all runs from the empty pool, with the releases of the run and
the time of its last call. -/
abbrev Reaches [DecidableEq Stream] :
    List (IdlePool.Release IpAddr Stream) → Nat → ConnectionPool Stream → Prop :=
  IdlePool.Reaches tcpPoolIdleTimeout tcpPoolPerServer

/-- **The pool hands out a connection once, for its server, and within the minute.**
After every run no server has more than its share of connections and no connection
is in the pool twice. What `acquire` then returns was released last for the same
server, less than a minute ago, and is gone from the pool; it returns nothing only
if no connection in the pool was released for the server within the minute. -/
theorem hands_out_fresh [DecidableEq Stream] {log : List (IdlePool.Release IpAddr Stream)}
    {now : Nat} {pool : ConnectionPool Stream} (h : Reaches log now pool) :
    (∀ server, (pool server).length ≤ tcpPoolPerServer) ∧
      ((∀ server, ((pool server).map Prod.fst).Nodup) ∧
        ∀ server server' stream, pool.Holds server stream → pool.Holds server' stream →
          server = server') ∧
      ∀ now', now ≤ now' → ∀ server,
        (∀ stream, (pool.acquire now' server).1 = some stream →
          (∃ time, IdlePool.lastRelease log stream = some (server, time) ∧ time ≤ now' ∧
            now' < time + nanos 60) ∧
          ∀ s, ¬ (pool.acquire now' server).2.Holds s stream) ∧
        ((pool.acquire now' server).1 = none →
          (∀ r ∈ log, r.key = server → now' < r.time + nanos 60 → ¬ pool.Holds server r.item) ∧
          ∀ stream time, IdlePool.lastRelease log stream = some (server, time) →
            now' < time + nanos 60 → ∀ s, ¬ pool.Holds s stream) := by
  have hinv := h.inv
  refine ⟨hinv.bounded, ⟨hinv.nodup, fun _ _ _ => hinv.holds_unique⟩, ?_⟩
  intro now' later server
  exact ⟨fun _ hsome => hinv.acquire_some later hsome, fun hnone => hinv.acquire_none later hnone⟩

/-- A connection that was released at the start. -/
def released (server : IpAddr) : ConnectionPool Nat := release (fun _ => []) 0 server 7

/-- It is handed out once within the minute. -/
theorem hands_out_fresh_released :
    ((released (.v4 ⟨192, 0, 2, 1⟩)).acquire (nanos 59) (.v4 ⟨192, 0, 2, 1⟩)).1 = some 7 ∧
      ∀ s, ¬ ((released (.v4 ⟨192, 0, 2, 1⟩)).acquire (nanos 59) (.v4 ⟨192, 0, 2, 1⟩)).2.Holds
        s 7 := by
  have hrun : Reaches [⟨0, .v4 ⟨192, 0, 2, 1⟩, 7⟩] 0 (released (.v4 ⟨192, 0, 2, 1⟩)) :=
    .release (.start 0) (Nat.le_refl 0) _ nofun
  have hsome : ((released (.v4 ⟨192, 0, 2, 1⟩)).acquire (nanos 59) (.v4 ⟨192, 0, 2, 1⟩)).1 =
      some 7 := by decide
  exact ⟨hsome, (((hands_out_fresh hrun).2.2 _ (Nat.zero_le _) _).1 7 hsome).2⟩

end ConnectionPool

end FastDns.Resolver
