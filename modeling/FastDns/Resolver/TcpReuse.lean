/-
Which query an answer over TCP belongs to (`query_via_tcp_pool` in
`src/resolver/recursive.rs`).

A connection goes back to the pool once a frame was read from it, and another query
takes it from there. Nothing in the frame is compared with the query, so what a
query gets is settled by counting alone: the answer to the n-th request on a
connection is the n-th frame the server has sent on it, in every run, whatever the
servers do (`answers_in_order`). Every query therefore gets its own answer, however
often connections are used again and however calls interleave, exactly if no server
sends more than one frame for a request (`reused_connections_align`): one frame too
many is the answer to the next query (`surplus_reached`).

A connection carries its history here; what can be seen of it is the `TcpStream` of
the exchange model, and a call does what a task does there (`connect_look`,
`receive_look`, `answer_look`, `answer_look_direct`).
-/

import FastDns.Lib.Framing
import FastDns.Resolver.TcpPool
import Mathlib.Logic.Relation

namespace FastDns.Resolver

open FastDns.Lib FastDns.Dns

/-! ### Connections -/

/-- A connection with its history. -/
structure Connection where
  server : IpAddr
  /-- The queries that were written. -/
  asked : List Bytes
  /-- The data of the frames that were read. -/
  answers : List Bytes
  /-- All bytes that have come, and those that were not read. -/
  received : Bytes
  incoming : Bytes

namespace Connection

def fresh (server : IpAddr) : Connection := ⟨server, [], [], [], []⟩

def ask (c : Connection) (query : Bytes) : Connection := { c with asked := c.asked ++ [query] }

def receive (c : Connection) (bytes : Bytes) : Connection :=
  { c with received := c.received ++ bytes, incoming := c.incoming ++ bytes }

def take (c : Connection) (data rest : Bytes) : Connection :=
  { c with answers := c.answers ++ [data], incoming := rest }

/-- What the program has of it. -/
def look (c : Connection) : TcpStream := ⟨⟨c.server, dnsPort⟩, c.incoming⟩

end Connection

/-! ### TcpCalls -/

/-- Where a call of `query_via_tcp_pool` is. The connection of an answered call is
the one that went back to the pool. -/
inductive CallPhase where
  | ready
  | exchanging (c : Connection)
  | answered (data : Bytes) (c : Connection)
  | failed

structure Call where
  server : IpAddr
  query : Bytes
  phase : CallPhase

/-- The pool and the calls. -/
structure TcpCalls where
  pool : ConnectionPool Connection
  calls : List Call

/-- What a server may have sent altogether on a connection with these requests.
It need not wait for the next one. -/
structure Behaviour where
  maySend : IpAddr → List Bytes → Bytes → Prop
  nothing : ∀ server, maySend server [] []
  ask : ∀ {server asked sent} query, maySend server asked sent →
    maySend server (asked ++ [query]) sent

namespace TcpCalls

def start : TcpCalls := ⟨fun _ => [], []⟩

/-- The first part of `query_via_tcp_pool`: a connection, from the pool if there is
one, and the query written to it. -/
def connect (s : TcpCalls) (i : Nat) (call : Call) (now : Nat) : TcpCalls :=
  let (pooled, pool) := s.pool.acquire now call.server
  let c := pooled.getD (.fresh call.server)
  { pool, calls := s.calls.set i { call with phase := .exchanging (c.ask call.query) } }

/-- The last part: the frame is read, and the connection goes back. -/
def answer (s : TcpCalls) (i : Nat) (call : Call) (c : Connection) (now : Nat)
    (data rest : Bytes) : TcpCalls where
  pool := s.pool.release now call.server (c.take data rest)
  calls := s.calls.set i { call with phase := .answered data (c.take data rest) }

/-- A step of a call, of a server or of the clean-up. -/
inductive Step (b : Behaviour) : TcpCalls → TcpCalls → Prop where
  | begin (s : TcpCalls) (server : IpAddr) (query : Bytes) :
      Step b s { s with calls := s.calls ++ [⟨server, query, .ready⟩] }
  | connect (s : TcpCalls) (i : Nat) (call : Call) (now : Nat) : s.calls[i]? = some call →
      call.phase = .ready → Step b s (s.connect i call now)
  | connectFails (s : TcpCalls) (i : Nat) (call : Call) (now : Nat) : s.calls[i]? = some call →
      call.phase = .ready →
      Step b s ⟨(s.pool.acquire now call.server).2, s.calls.set i { call with phase := .failed }⟩
  | arrive (s : TcpCalls) (i : Nat) (call : Call) (c : Connection) (bytes : Bytes) :
      s.calls[i]? = some call → call.phase = .exchanging c →
      b.maySend c.server c.asked (c.received ++ bytes) →
      Step b s { s with
        calls := s.calls.set i { call with phase := .exchanging (c.receive bytes) } }
  | arriveIdle (s : TcpCalls) (server : IpAddr) (front back : List (Connection × Nat))
      (c : Connection) (time : Nat) (bytes : Bytes) :
      s.pool server = front ++ (c, time) :: back →
      b.maySend c.server c.asked (c.received ++ bytes) →
      Step b s { s with
        pool := Function.update s.pool server (front ++ (c.receive bytes, time) :: back) }
  | answer (s : TcpCalls) (i : Nat) (call : Call) (c : Connection) (now : Nat) (data rest : Bytes) :
      s.calls[i]? = some call → call.phase = .exchanging c →
      readFrame c.incoming = .whole data rest → Step b s (s.answer i call c now data rest)
  /-- A time-out, an error, or a length of 0. -/
  | fail (s : TcpCalls) (i : Nat) (call : Call) (c : Connection) : s.calls[i]? = some call →
      call.phase = .exchanging c →
      Step b s { s with calls := s.calls.set i { call with phase := .failed } }
  | cleanup (s : TcpCalls) (now : Nat) : Step b s { s with pool := s.pool.cleanup now }

/-- The states of all runs. -/
abbrev Reached (b : Behaviour) : TcpCalls → Prop := Relation.ReflTransGen (Step b) start

end TcpCalls

/-! ### The task of a call -/

section Look

variable {expectedId : UInt16} {t : Task} {truncation : IpAddr → Option Nat} {lock : Holder}
  {pool : ConnectionPool Connection} {c : Connection} {fallback : Option Message}

/-- The task that connects sends its query over a pooled connection, or a new one. -/
theorem connect_look (hphase : t.phase = .connecting fallback) (now : Nat) (query : Bytes)
    (hc : c = ((pool.acquire now t.server).1.getD (.fresh t.server)).ask query) :
    t.step expectedId ⟨pool.looks Connection.look, truncation, lock⟩ (.connect now true) =
      some ({ t with phase := .exchanging fallback c.look },
        ⟨(pool.acquire now t.server).2.looks Connection.look, truncation, lock⟩) := by
  subst hc
  unfold Task.step
  rw [hphase]
  dsimp only
  rw [ConnectionPool.acquire_look]
  cases (pool.acquire now t.server).1 with
  | none => rfl
  | some pooled => rfl

/-- Bytes arrive on the connection of the task. -/
theorem receive_look (hphase : t.phase = .exchanging fallback c.look) (net : Net)
    (bytes : Bytes) :
    t.step expectedId net (.arrive bytes) =
      some ({ t with phase := .exchanging fallback (c.receive bytes).look }, net) := by
  unfold Task.step
  rw [hphase]
  rfl

/-- A whole frame ends the exchange, and the connection goes back to the pool. -/
theorem answer_look {m : Message} (hphase : t.phase = .exchanging (some m) c.look)
    {data rest : Bytes} (hread : readFrame c.incoming = .whole data rest) (now : Nat) :
    t.step expectedId ⟨pool.looks Connection.look, truncation, lock⟩ (.read now) =
      some ({ t with
          phase := Task.ending (decodeMessage data)
          framed := some (⟨c.server, dnsPort⟩, data) },
        ⟨(pool.release now t.server (c.take data rest)).looks Connection.look, truncation,
          lock⟩) := by
  obtain ⟨server, phase, heard, framed⟩ := t
  cases hphase
  unfold Task.step
  dsimp only [Connection.look]
  rw [hread, ← ConnectionPool.release_look]
  rfl

/-- The same for a task with the lock. -/
theorem answer_look_direct (hphase : t.phase = .exchanging none c.look) {data rest : Bytes}
    (hread : readFrame c.incoming = .whole data rest) (now : Nat) :
    t.step expectedId ⟨pool.looks Connection.look, truncation, lock⟩ (.read now) =
      let (phase, net) := Task.endingDirect (decodeMessage data)
        ⟨(pool.release now t.server (c.take data rest)).looks Connection.look, truncation, lock⟩
      some ({ t with phase, framed := some (⟨c.server, dnsPort⟩, data) }, net) := by
  obtain ⟨server, phase, heard, framed⟩ := t
  cases hphase
  unfold Task.step
  dsimp only [Connection.look]
  rw [hread, ← ConnectionPool.release_look]
  rfl

end Look

/-! ### Frames -/

section Frames

variable {incoming data rest : Bytes}

/-- What was read was a frame at the front. -/
theorem readFrame_eq_whole : readFrame incoming = .whole data rest ↔
    incoming = frame data ++ rest ∧ Framable data ∧ data ≠ [] := by
  have hword := (u16At incoming 0).toNat_lt
  constructor
  · intro h
    unfold readFrame at h
    split at h
    · cases h
    · dsimp only at h
      split at h
      · cases h
      · split at h
        · cases h
        · cases h
          have hsize : ((incoming.drop 2).take (u16At incoming 0).toNat).length =
              (u16At incoming 0).toNat := by
            rw [List.length_take, List.length_drop]
            omega
          refine ⟨(frame_append_drop (by omega) (by omega)).symm, ?_, fun hempty => ?_⟩
          · unfold Framable
            omega
          · rw [hempty, List.length_nil] at hsize
            omega
  · rintro ⟨rfl, hframable, hne⟩
    have hpos := List.length_pos_iff.mpr hne
    have hlen : (frame data ++ rest).length = 2 + data.length + rest.length := by
      rw [List.length_append, length_frame]
    unfold readFrame
    rw [if_neg (by omega), u16At_frame hframable]
    dsimp only
    rw [if_neg (by unfold Framable at hframable; omega), if_neg (by omega), ← List.drop_drop,
      drop_frame, List.take_left, List.drop_left]

end Frames

/-! ### The position of an answer -/

namespace Connection

/-- What is known of every connection. -/
structure Sound (b : Behaviour) (server : IpAddr) (c : Connection) : Prop where
  server : c.server = server
  allowed : b.maySend c.server c.asked c.received
  cut : Cut c.received c.answers c.incoming

/-- A connection in the pool: each request has had its frame. -/
structure Idle (b : Behaviour) (server : IpAddr) (c : Connection) : Prop where
  sound : c.Sound b server
  even : c.answers.length = c.asked.length

/-- The query was written last, and only its frame was not read. -/
structure Awaits (b : Behaviour) (server : IpAddr) (query : Bytes) (c : Connection) : Prop where
  sound : c.Sound b server
  position : ∃ earlier, c.asked = earlier ++ [query] ∧ c.answers.length = earlier.length

/-- The data stands where the query stands. -/
structure Answers (b : Behaviour) (server : IpAddr) (query data : Bytes) (c : Connection) :
    Prop where
  sound : c.Sound b server
  position : ∃ earlier before, c.asked = earlier ++ [query] ∧ c.answers = before ++ [data] ∧
    before.length = earlier.length

section Steps

variable {b : Behaviour} {server : IpAddr} {c : Connection} {query data rest : Bytes}

/-- Nothing has been asked on a new connection, and nothing has come. -/
theorem idle_fresh (b : Behaviour) (server : IpAddr) : (fresh server).Idle b server where
  sound := ⟨rfl, b.nothing server, Cut.nothing []⟩
  even := rfl

/-- Bytes that the server may send keep the account of the connection. -/
theorem Sound.receive (h : c.Sound b server) {bytes : Bytes}
    (hsent : b.maySend c.server c.asked (c.received ++ bytes)) :
    (c.receive bytes).Sound b server :=
  ⟨h.server, hsent, h.cut.arrive bytes⟩

/-- A query on an idle connection is the only one without an answer. -/
theorem Idle.ask (h : c.Idle b server) (query : Bytes) : (c.ask query).Awaits b server query where
  sound := ⟨h.sound.server, b.ask query h.sound.allowed, h.sound.cut⟩
  position := ⟨c.asked, rfl, h.even⟩

/-- The next frame answers it. -/
theorem Awaits.take (h : c.Awaits b server query)
    (hread : readFrame c.incoming = .whole data rest) :
    (c.take data rest).Answers b server query data := by
  obtain ⟨hincoming, hframable, _⟩ := readFrame_eq_whole.mp hread
  obtain ⟨earlier, hasked, hlen⟩ := h.position
  have hcut := h.sound.cut
  rw [hincoming] at hcut
  exact ⟨⟨h.sound.server, h.sound.allowed, hcut.take hframable⟩, earlier, c.answers, hasked, rfl,
    hlen⟩

/-- An answered connection is idle again. -/
theorem Answers.idle (h : c.Answers b server query data) : c.Idle b server := by
  obtain ⟨earlier, before, hasked, hanswers, hlen⟩ := h.position
  refine ⟨h.sound, ?_⟩
  rw [hasked, hanswers]
  simp [hlen]

end Steps

end Connection

/-- What is known of a call in each phase. -/
def Call.Sound (b : Behaviour) (call : Call) : Prop :=
  match call.phase with
  | .ready => True
  | .exchanging c => c.Awaits b call.server call.query
  | .answered data c => c.Answers b call.server call.query data
  | .failed => True

namespace TcpCalls

/-- The invariant of a run. -/
structure Sound (b : Behaviour) (s : TcpCalls) : Prop where
  pool : s.pool.Each (Connection.Idle b)
  calls : ∀ call ∈ s.calls, call.Sound b

variable {b : Behaviour} {s s' : TcpCalls}

/-- No connection is open at the start. -/
theorem sound_start : TcpCalls.start.Sound b :=
  ⟨IdlePool.each_empty, fun _ h => absurd h List.not_mem_nil⟩

/-- A call and the pool are replaced, the other calls stay. -/
theorem Sound.set (h : s.Sound b) {pool : ConnectionPool Connection} {call : Call} (i : Nat)
    (hpool : pool.Each (Connection.Idle b)) (hcall : call.Sound b) :
    TcpCalls.Sound b ⟨pool, s.calls.set i call⟩ := by
  refine ⟨hpool, fun other hother => ?_⟩
  rcases List.mem_or_eq_of_mem_set hother with hold | rfl
  · exact h.calls other hold
  · exact hcall

/-- The connection that a call is given has had an answer to each request. -/
theorem Sound.acquired (h : s.Sound b) (now : Nat) (server : IpAddr) :
    ((s.pool.acquire now server).1.getD (.fresh server)).Idle b server := by
  cases hpooled : (s.pool.acquire now server).1 with
  | none => exact Connection.idle_fresh b server
  | some c => exact h.pool.acquired hpooled

/-- A call that reads has its query behind all answered ones. -/
theorem Sound.awaits (h : s.Sound b) {i : Nat} {call : Call} {c : Connection}
    (hcall : s.calls[i]? = some call) (hphase : call.phase = .exchanging c) :
    c.Awaits b call.server call.query := by
  have hsound := h.calls call (List.mem_of_getElem? hcall)
  unfold Call.Sound at hsound
  rwa [hphase] at hsound

/-- **The step lemma**: whatever call goes on, connections stay in step. -/
theorem Sound.step (h : s.Sound b) (hstep : Step b s s') : s'.Sound b := by
  cases hstep with
  | begin server query =>
      refine ⟨h.pool, fun call hcall => ?_⟩
      rcases List.mem_append.mp hcall with hold | hnew
      · exact h.calls call hold
      · rw [List.mem_singleton.mp hnew]
        exact trivial
  | connect i call now _ _ =>
      exact h.set i h.pool.acquire ((h.acquired now call.server).ask call.query)
  | connectFails i call now _ _ => exact h.set i h.pool.acquire trivial
  | arrive i call c bytes hcall hphase hsent =>
      have hawaits := h.awaits hcall hphase
      exact h.set i h.pool
        (show Call.Sound b _ from ⟨hawaits.sound.receive hsent, hawaits.position⟩)
  | arriveIdle server front back c time bytes hpool hsent =>
      have heach : ∀ entry ∈ s.pool server, entry.1.Idle b server := h.pool server
      rw [hpool] at heach
      have hidle := heach (c, time) (by simp)
      refine ⟨h.pool.update fun entry hentry => ?_, h.calls⟩
      rcases List.mem_append.mp hentry with hfront | hback
      · exact heach entry (List.mem_append_left _ hfront)
      · rcases List.mem_cons.mp hback with rfl | hback
        · exact ⟨hidle.sound.receive hsent, hidle.even⟩
        · exact heach entry (List.mem_append_right _ (List.mem_cons_of_mem _ hback))
  | answer i call c now data rest hcall hphase hread =>
      have hanswers := (h.awaits hcall hphase).take hread
      exact h.set i (h.pool.release hanswers.idle) hanswers
  | fail i call c _ _ => exact h.set i h.pool trivial
  | cleanup now => exact ⟨h.pool.cleanup, h.calls⟩

/-- **The run lemma.** -/
theorem Reached.sound (hrun : Reached b s) : s.Sound b := by
  induction hrun with
  | refl => exact sound_start
  | tail _ hstep ih => exact ih.step hstep

/-- The frame that answers a call is the one for its query. -/
theorem Reached.answers (hrun : Reached b s) {call : Call} (hcall : call ∈ s.calls) {data : Bytes}
    {c : Connection} (hphase : call.phase = .answered data c) :
    c.Answers b call.server call.query data := by
  have hsound := hrun.sound.calls call hcall
  unfold Call.Sound at hsound
  rwa [hphase] at hsound

/-! ### Servers that answer each request on its own -/

/-- Servers that send these frames for each request, one request after the other. -/
def answering (replies : IpAddr → Bytes → List Bytes) : Behaviour where
  maySend server asked sent := sent <+: framed (asked.flatMap (replies server))
  nothing _ := List.nil_prefix
  ask query h := by
    rw [List.flatMap_append, framed_append]
    exact h.trans (List.prefix_append _ _)

section Answering

variable {replies : IpAddr → Bytes → List Bytes}

/-- Nothing is in the pool; a connection that is released there is the next one that is
acquired. -/
theorem acquire_empty (now : Nat) (server : IpAddr) :
    ConnectionPool.acquire (fun _ => [] : ConnectionPool Connection) now server =
      (none, fun _ => []) := by
  have hsame := Function.update_eq_self server (fun _ => [] : ConnectionPool Connection)
  simp only [ConnectionPool.acquire, IdlePool.acquire, List.rdropWhile_nil]
  exact congrArg _ hsame

/-- A connection that was just given back is the next one handed out. -/
theorem acquire_released (now : Nat) (server : IpAddr) (c : Connection) :
    (ConnectionPool.acquire
      (ConnectionPool.release (fun _ => []) now server c) now server).1 = some c := by
  have hidle : IdlePool.isIdle tcpPoolIdleTimeout now (c, now) = true := by
    simp [IdlePool.isIdle, tcpPoolIdleTimeout, nanos]
  simp [ConnectionPool.acquire, ConnectionPool.release, IdlePool.acquire, IdlePool.release,
    tcpPoolPerServer, List.rdropWhile_singleton, hidle]

/-- A connection after one query and the first frame for it. -/
def usedOnce (server : IpAddr) (query first : Bytes) (more : List Bytes) : Connection :=
  (((Connection.fresh server).ask query).receive (framed (first :: more))).take first (framed more)

/-- A run in which a query is answered on a fresh connection, after everything has
come. -/
theorem first_reached {server : IpAddr} {query first : Bytes} {more : List Bytes}
    (hreplies : replies server query = first :: more) (hfirst : Framable first ∧ first ≠ []) :
    Reached (answering replies)
      ⟨ConnectionPool.release (fun _ => []) 0 server (usedOnce server query first more),
        [⟨server, query, .answered first (usedOnce server query first more)⟩]⟩ := by
  let asked := (Connection.fresh server).ask query
  let full := asked.receive (framed (first :: more))
  have hbegin : Step (answering replies) start ⟨fun _ => [], [⟨server, query, .ready⟩]⟩ :=
    .begin start server query
  have hconnect : Step (answering replies) ⟨fun _ => [], [⟨server, query, .ready⟩]⟩
      ⟨fun _ => [], [⟨server, query, .exchanging asked⟩]⟩ := by
    have hstep := Step.connect (b := answering replies) ⟨fun _ => [], [⟨server, query, .ready⟩]⟩ 0
      ⟨server, query, .ready⟩ 0 rfl rfl
    rw [TcpCalls.connect, acquire_empty] at hstep
    exact hstep
  have harrive : Step (answering replies) ⟨fun _ => [], [⟨server, query, .exchanging asked⟩]⟩
      ⟨fun _ => [], [⟨server, query, .exchanging full⟩]⟩ := by
    refine .arrive _ 0 ⟨server, query, .exchanging asked⟩ asked _ rfl rfl ?_
    change framed _ <+: framed ([query].flatMap (replies server))
    rw [List.flatMap_singleton, hreplies]
  exact .tail (.tail (.tail (.single hbegin) hconnect) harrive)
    (.answer _ 0 ⟨server, query, .exchanging full⟩ full 0 first _ rfl rfl
      (readFrame_eq_whole.mpr ⟨rfl, hfirst⟩))

/-- Servers that answer with the query behind a byte, if that has room in a frame. -/
def echoes (_ : IpAddr) (query : Bytes) : List Bytes :=
  if query.length < 65535 then [0 :: query] else []

theorem mem_echoes {server : IpAddr} {query data : Bytes} :
    data ∈ echoes server query ↔ query.length < 65535 ∧ data = 0 :: query := by
  unfold echoes
  split
  · rename_i hlen
    simp [hlen]
  · rename_i hlen
    simp [hlen]

/-- **Answers are counted, not compared**: whatever the servers send and whenever, a
call whose query was the n-th on its connection returns the data of the n-th frame
that has come on it. -/
theorem answers_in_order (hrun : Reached b s) {call : Call} (hcall : call ∈ s.calls)
    {data : Bytes} {c : Connection} (hphase : call.phase = .answered data c) :
    c.server = call.server ∧ ∃ earlier before, c.asked = earlier ++ [call.query] ∧
      before.length = earlier.length ∧ Cut c.received (before ++ [data]) c.incoming ∧
        ∀ taken unread, Cut c.received taken unread → taken.length = c.asked.length →
          taken = before ++ [data] := by
  have hanswers := hrun.answers hcall hphase
  have hread := hanswers.sound.cut
  have heven := hanswers.idle.even
  obtain ⟨earlier, before, hasked, hbefore, hlen⟩ := hanswers.position
  rw [hbefore] at hread heven
  refine ⟨hanswers.sound.server, earlier, before, hasked, hlen, hread, ?_⟩
  intro taken unread hcut htaken
  exact (hcut.unique hread (htaken.trans heven.symm)).1

/-- A query that was answered by such a server. -/
def echoed : TcpCalls :=
  ⟨ConnectionPool.release (fun _ => []) 0 (.v4 ⟨192, 0, 2, 53⟩)
      (usedOnce (.v4 ⟨192, 0, 2, 53⟩) [7] [0, 7] []),
    [⟨.v4 ⟨192, 0, 2, 53⟩, [7],
      .answered [0, 7] (usedOnce (.v4 ⟨192, 0, 2, 53⟩) [7] [0, 7] [])⟩]⟩

theorem echoed_reached : Reached (answering echoes) echoed :=
  first_reached rfl ⟨by unfold Framable; decide, List.cons_ne_nil _ _⟩

theorem answers_in_order_echoed :
    IpAddr.v4 ⟨192, 0, 2, 53⟩ = IpAddr.v4 ⟨192, 0, 2, 53⟩ ∧
      ∃ earlier before,
        (usedOnce (.v4 ⟨192, 0, 2, 53⟩) [7] [0, 7] []).asked = earlier ++ [[7]] ∧
        before.length = earlier.length ∧
        Cut (usedOnce (.v4 ⟨192, 0, 2, 53⟩) [7] [0, 7] []).received (before ++ [[0, 7]])
          (usedOnce (.v4 ⟨192, 0, 2, 53⟩) [7] [0, 7] []).incoming ∧
        ∀ taken unread,
          Cut (usedOnce (.v4 ⟨192, 0, 2, 53⟩) [7] [0, 7] []).received taken unread →
          taken.length = (usedOnce (.v4 ⟨192, 0, 2, 53⟩) [7] [0, 7] []).asked.length →
            taken = before ++ [[0, 7]] :=
  answers_in_order echoed_reached (List.mem_singleton.mpr rfl) rfl

theorem length_flatMap_le {replies : Bytes → List Bytes}
    (hone : ∀ query, (replies query).length ≤ 1) (asked : List Bytes) :
    (asked.flatMap replies).length ≤ asked.length := by
  induction asked with
  | nil => exact Nat.le_refl _
  | cons query asked ih =>
      have hquery := hone query
      rw [List.flatMap_cons, List.length_append, List.length_cons]
      omega

/-- With one frame at most for each request, as many frames as requests are a frame
for each. -/
theorem mem_of_flatMap {replies : Bytes → List Bytes} (hone : ∀ query, (replies query).length ≤ 1)
    {earlier before : List Bytes} {query data : Bytes} (hlen : before.length = earlier.length)
    (hbegins : before ++ [data] <+: (earlier ++ [query]).flatMap replies) :
    data ∈ replies query := by
  have hbound := length_flatMap_le hone earlier
  have hquery := hone query
  have hlonger := hbegins.length_le
  rw [List.flatMap_append, List.flatMap_singleton] at hbegins hlonger
  rw [List.length_append, List.length_append, List.length_singleton] at hlonger
  have hsame := hbegins.eq_of_length
    (by rw [List.length_append, List.length_append, List.length_singleton]; omega)
  obtain ⟨_, hreply⟩ := List.append_inj hsame (by omega)
  rw [← hreply]
  exact List.mem_singleton.mpr rfl

/-- Where a server has sent two frames for one query, the second one answers the next
query, whichever it is. -/
theorem surplus_reached {server : IpAddr} {query first second : Bytes} {more : List Bytes}
    (hreplies : replies server query = first :: second :: more)
    (hframes : ∀ data ∈ replies server query, Framable data ∧ data ≠ []) (next : Bytes) :
    ∃ s, Reached (answering replies) s ∧ ∃ call ∈ s.calls, call.server = server ∧
      call.query = next ∧ ∃ c, call.phase = .answered second c := by
  have hfirst := hframes first (by simp [hreplies])
  have hsecond := hframes second (by simp [hreplies])
  have hanswered := first_reached hreplies hfirst
  let used := usedOnce server query first (second :: more)
  let pool := ConnectionPool.release (fun _ => []) 0 server used
  have hpooled : pool.acquire 0 server = (some used, (pool.acquire 0 server).2) :=
    Prod.ext (acquire_released 0 server used) rfl
  have hagain : Step (answering replies)
      ⟨pool, [⟨server, query, .answered first used⟩, ⟨server, next, .ready⟩]⟩
      ⟨(pool.acquire 0 server).2, [⟨server, query, .answered first used⟩,
        ⟨server, next, .exchanging (used.ask next)⟩]⟩ := by
    have hstep := Step.connect (b := answering replies)
      ⟨pool, [⟨server, query, .answered first used⟩, ⟨server, next, .ready⟩]⟩ 1
      ⟨server, next, .ready⟩ 0 rfl rfl
    rw [TcpCalls.connect, hpooled] at hstep
    exact hstep
  have hstale := Step.answer (b := answering replies)
    ⟨(pool.acquire 0 server).2, [⟨server, query, .answered first used⟩,
      ⟨server, next, .exchanging (used.ask next)⟩]⟩ 1 ⟨server, next, .exchanging (used.ask next)⟩
    (used.ask next) 0 second (framed more) rfl rfl (readFrame_eq_whole.mpr ⟨rfl, hsecond⟩)
  have hrun := ((hanswered.tail (.begin _ server next)).tail hagain).tail hstale
  exact ⟨_, hrun, ⟨server, next, .answered second _⟩, List.mem_of_getElem? (i := 1) rfl, rfl, rfl,
    _, rfl⟩

/-- **Every query gets its own answer if and only if no server sends more than one
frame for a request.** The frames of different requests are taken to be different.
Where one is sent more, some run has it as the answer to any later query. -/
theorem reused_connections_align
    (hframes : ∀ server query, ∀ data ∈ replies server query, Framable data ∧ data ≠ [])
    (hown : ∀ server query query' data, data ∈ replies server query →
      data ∈ replies server query' → query = query') :
    ((∀ s, Reached (answering replies) s → ∀ call ∈ s.calls, ∀ data c,
      call.phase = .answered data c → data ∈ replies call.server call.query) ↔
    ∀ server query, (replies server query).length ≤ 1) ∧
    ∀ server query first second more, replies server query = first :: second :: more →
      ∀ next, ∃ s, Reached (answering replies) s ∧ ∃ call ∈ s.calls, call.server = server ∧
        call.query = next ∧ ∃ c, call.phase = .answered second c := by
  refine ⟨?_, fun server query _ _ _ hreplies next =>
    surplus_reached hreplies (hframes server query) next⟩
  constructor
  · intro haligned server query
    by_contra hmore
    match hreplies : replies server query with
    | [] => simp [hreplies] at hmore
    | [_] => simp [hreplies] at hmore
    | first :: second :: more =>
        obtain ⟨s, hrun, call, hcall, rfl, hquery, c, hphase⟩ :=
          surplus_reached hreplies (hframes _ query) (0 :: query)
        have hnext := haligned s hrun call hcall second c hphase
        have hsecond : second ∈ replies call.server query := by
          rw [hreplies]
          simp
        have hsame := hown _ _ _ _ hsecond hnext
        rw [hquery] at hsame
        exact absurd (congrArg List.length hsame) (by simp)
  · intro hone s hrun call hcall data c hphase
    have hanswers := hrun.answers hcall hphase
    obtain ⟨earlier, before, hasked, hbefore, hlen⟩ := hanswers.position
    have hallowed := hanswers.sound.allowed
    have hcut := hanswers.sound.cut
    rw [hanswers.sound.server, hasked] at hallowed
    rw [hbefore] at hcut
    refine mem_of_flatMap (hone call.server) hlen
      (hcut.prefix_of_sent (fun sent hsent => ?_) hallowed)
    obtain ⟨query, _, hquery⟩ := List.mem_flatMap.mp hsent
    exact (hframes _ _ _ hquery).1

/-- Servers that say the same twice, and tell the second time from the first. -/
def repeats (_ : IpAddr) (query : Bytes) : List Bytes :=
  if query.length < 65535 then [0 :: query, 1 :: query] else []

theorem of_mem_repeats {server : IpAddr} {query data : Bytes} (h : data ∈ repeats server query) :
    query.length < 65535 ∧ ∃ byte, data = byte :: query := by
  unfold repeats at h
  split at h
  · rename_i hlen
    rcases List.mem_pair.mp h with rfl | rfl
    · exact ⟨hlen, 0, rfl⟩
    · exact ⟨hlen, 1, rfl⟩
  · cases h

/-- With echoes every query gets its own answer; with repeats the query `[9]` gets the
second answer to the query `[7]`. -/
theorem reused_connections_align_echoes :
    (∀ s, Reached (answering echoes) s → ∀ call ∈ s.calls, ∀ data c,
      call.phase = .answered data c → data ∈ echoes call.server call.query) ∧
    ∃ s, Reached (answering repeats) s ∧ ∃ call ∈ s.calls,
      call.server = .v4 ⟨192, 0, 2, 53⟩ ∧ call.query = [9] ∧
        ∃ c, call.phase = .answered [1, 7] c := by
  constructor
  · refine (reused_connections_align (fun server query data hdata => ?_)
      fun server query query' data hdata hdata' => ?_).1.mpr fun server query => ?_
    · obtain ⟨hlen, rfl⟩ := mem_echoes.mp hdata
      exact ⟨Nat.succ_lt_succ hlen, List.cons_ne_nil _ _⟩
    · obtain ⟨_, rfl⟩ := mem_echoes.mp hdata
      obtain ⟨_, hsame⟩ := mem_echoes.mp hdata'
      exact List.tail_eq_of_cons_eq hsame
    · unfold echoes
      split <;> simp
  · refine (reused_connections_align (fun server query data hdata => ?_)
      fun server query query' data hdata hdata' => ?_).2 (.v4 ⟨192, 0, 2, 53⟩) [7] [0, 7] [1, 7]
        [] rfl [9]
    · obtain ⟨hlen, byte, rfl⟩ := of_mem_repeats hdata
      exact ⟨Nat.succ_lt_succ hlen, List.cons_ne_nil _ _⟩
    · obtain ⟨_, byte, rfl⟩ := of_mem_repeats hdata
      obtain ⟨_, byte', hsame⟩ := of_mem_repeats hdata'
      exact List.tail_eq_of_cons_eq hsame

end Answering

end TcpCalls

end FastDns.Resolver
