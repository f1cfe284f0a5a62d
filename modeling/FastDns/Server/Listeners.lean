/-
The listener over TCP (`src/server/tcp.rs`: `run_tcp_server`).

It has 512 permits and runs `handle_tcp_connection` on a connection that has one; a
connection that meets no free permit is closed. Bytes come in pieces of any size, at
any time, on any connection. A handler has written its response before its task drops
the permit.

Whatever the order of steps, a connection gets one response at most, and it answers
the first frame of what the peer has sent (`tcp_runs_account`). No limit is set on
the time in which a request has to come: 512 connections that send nothing leave no
permit to any other (`silent_connections_exclude`).
-/

import FastDns.Server.Admission

namespace FastDns.Server

open FastDns.Lib FastDns.Dns

/-! ### Connections -/

/-- What the other end does. -/
inductive Peer where
  | sending
  | closed
  | reset
deriving DecidableEq, Repr

/-- The stream of a connection. -/
structure Socket where
  arrived : Bytes
  peer : Peer

/-- Both `read_exact` calls of `handle_tcp_connection` come back: with the request,
with a length of 0, or because the stream has ended. -/
def Socket.Read (k : Socket) : Prop :=
  k.peer = .closed ∨ 2 ≤ k.arrived.length ∧
    ((u16At k.arrived 0).toNat = 0 ∨ 2 + (u16At k.arrived 0).toNat ≤ k.arrived.length)

instance (k : Socket) : Decidable k.Read := by unfold Socket.Read; infer_instance

section Frames

variable {arrived data : Bytes}

theorem readTcpRequest_eq_ok : readTcpRequest arrived = .ok data ↔
    2 ≤ arrived.length ∧ (u16At arrived 0).toNat ≠ 0 ∧
      2 + (u16At arrived 0).toNat ≤ arrived.length ∧
      data = (arrived.drop 2).take (u16At arrived 0).toNat := by
  have hword := (u16At arrived 0).toNat_lt
  unfold readTcpRequest
  constructor
  · intro h
    split at h
    · cases h
    · dsimp only at h
      split at h
      · cases h
      · split at h
        · cases h
        · cases h
          exact ⟨by omega, by omega, by omega, rfl⟩
  · rintro ⟨hlen, hpos, hwhole, rfl⟩
    rw [if_neg (by omega)]
    dsimp only
    rw [if_neg (by unfold maxTcpMessage; omega), if_neg (by omega)]

theorem readTcpRequest_short (hshort : arrived.length < 2) : readTcpRequest arrived =
    .err (.malformed "TCP connection closed before length prefix") := if_pos hshort

theorem readTcpRequest_zero (hlen : 2 ≤ arrived.length) (hzero : (u16At arrived 0).toNat = 0) :
    readTcpRequest arrived = .err (.malformed "Invalid TCP message length") := by
  unfold readTcpRequest
  rw [if_neg (by omega)]
  exact if_pos (.inr hzero)

theorem readTcpRequest_long (hlong : 65537 ≤ arrived.length) : readTcpRequest arrived ≠
    .err (.malformed "TCP connection closed before length prefix") := by
  have hword := (u16At arrived 0).toNat_lt
  by_cases hzero : (u16At arrived 0).toNat = 0
  · rw [readTcpRequest_zero (by omega) hzero]
    simp
  · have hread := readTcpRequest_eq_ok.mpr ⟨by omega, hzero, by omega, rfl⟩
    rw [hread]
    exact nofun

/-- A request that was read stays the same, whatever comes behind it. -/
theorem readTcpRequest_append (h : readTcpRequest arrived = .ok data) (more : Bytes) :
    readTcpRequest (arrived ++ more) = .ok data := by
  obtain ⟨hlen, hpos, hwhole, rfl⟩ := readTcpRequest_eq_ok.mp h
  refine readTcpRequest_eq_ok.mpr ?_
  rw [u16At_append hlen, List.length_append]
  refine ⟨by omega, hpos, by omega, ?_⟩
  rw [List.drop_append_of_le_length hlen, List.take_append_of_le_length]
  rw [List.length_drop]
  omega

/-- **The reads end as soon as the outcome is settled**: no sooner and no later. -/
theorem read_iff_settled (arrived : Bytes) : Socket.Read ⟨arrived, .sending⟩ ↔
    ∀ more, readTcpRequest (arrived ++ more) = readTcpRequest arrived := by
  constructor
  · rintro (hclosed | ⟨hlen : 2 ≤ arrived.length, hend⟩) more
    · cases hclosed
    · by_cases hzero : (u16At arrived 0).toNat = 0
      · rw [readTcpRequest_zero hlen hzero, readTcpRequest_zero (by simp; omega)]
        rwa [u16At_append hlen]
      · have hread := readTcpRequest_eq_ok.mpr ⟨hlen, hzero, hend.resolve_left hzero, rfl⟩
        rw [hread, readTcpRequest_append hread]
  · intro hsettled
    by_contra hopen
    obtain ⟨_, hneither⟩ := not_or.mp hopen
    by_cases hlen : 2 ≤ arrived.length
    · -- The missing bytes may still come.
      obtain ⟨hpos, hpartly⟩ := not_or.mp (not_and.mp hneither hlen)
      obtain ⟨more, hmore⟩ : ∃ more : Bytes, more.length = (u16At arrived 0).toNat :=
        ⟨List.replicate _ 0, List.length_replicate⟩
      have hlater := hsettled more
      have hword : u16At (arrived ++ more) 0 = u16At arrived 0 := u16At_append hlen
      have hlonger : (arrived ++ more).length = arrived.length + (u16At arrived 0).toNat := by
        rw [List.length_append, hmore]
      rw [← hword] at hlonger hpos
      have hread := readTcpRequest_eq_ok.mpr ⟨by omega, hpos, by omega, rfl⟩
      rw [hread] at hlater
      exact hpartly (readTcpRequest_eq_ok.mp hlater.symm).2.2.1
    · -- The length is not there yet; with it, the error is another one, if there is one.
      have hlater := hsettled (List.replicate 65537 0)
      rw [readTcpRequest_short (Nat.lt_of_not_le hlen)] at hlater
      refine readTcpRequest_long ?_ hlater
      rw [List.length_append, List.length_replicate]
      exact Nat.le_add_left _ _

end Frames

/-! ### The listener -/

/-- `MAX_CONNECTIONS` -/
def maxConnections : Nat := 512

/-- The listener with its connections, which have a number each. -/
structure Listener where
  connections : Admission Nat
  /-- The connections whose handler has returned and whose task still has its permit. -/
  leaving : List Nat
  sockets : Nat → Socket
  accepted : List Nat
  sent : List (Nat × Bytes)

/-- The state in which the accept loop begins. -/
def Listener.start : Listener where
  connections := .new maxConnections
  leaving := []
  sockets _ := ⟨[], .sending⟩
  accepted := []
  sent := []

section Steps

variable {ρ σ ε : Type} (api : ResolverApi ρ σ ε) (course : Course ρ σ)

/-- What `handle_tcp_connection` does with a connection. -/
abbrev handledConnection (k : Socket) (c : Nat) :
    Outcome ((DnsError ⊕ ε) × ServerSt σ) (Unit × ServerSt σ) :=
  handleTcpConnection api k.arrived (course c).1 ⟨(course c).2, []⟩

/-- A step of the accept loop of `run_tcp_server`, of a peer, or of the task of a
connection. An error of `accept` changes nothing. -/
inductive TcpStep : Listener → Listener → Prop where
  | accept (s : Listener) (c : Nat) : c ∉ s.accepted →
      TcpStep s { s with
        connections := s.connections.tryAcquire c
        accepted := s.accepted ++ [c] }
  | arrive (s : Listener) (c : Nat) (bytes : Bytes) : (s.sockets c).peer = .sending →
      TcpStep s { s with
        sockets := Function.update s.sockets c ⟨(s.sockets c).arrived ++ bytes, .sending⟩ }
  | hangUp (s : Listener) (c : Nat) (peer : Peer) : (s.sockets c).peer = .sending →
      TcpStep s { s with
        sockets := Function.update s.sockets c ⟨(s.sockets c).arrived, peer⟩ }
  /-- The request was read, and the handler comes to its end. -/
  | handle (s : Listener) (c : Nat) : c ∈ s.connections.running → c ∉ s.leaving →
      (s.sockets c).Read → handledConnection api course (s.sockets c) c ≠ .diverge →
      TcpStep s { s with
        leaving := s.leaving ++ [c]
        sent := s.sent ++ (sentBy (handledConnection api course (s.sockets c) c)).map (c, ·) }
  /-- A read fails. -/
  | fail (s : Listener) (c : Nat) : c ∈ s.connections.running → c ∉ s.leaving →
      (s.sockets c).peer = .reset → TcpStep s { s with leaving := s.leaving ++ [c] }
  /-- The task ends, and drops its permit. -/
  | drop (s : Listener) (c : Nat) : c ∈ s.leaving →
      TcpStep s { s with
        connections := s.connections.release c
        leaving := s.leaving.erase c }

abbrev TcpSteps : Listener → Listener → Prop := Relation.ReflTransGen (TcpStep api course)

end Steps

/-! ### Responses -/

section Responses

variable {ρ σ ε : Type} {api : ResolverApi ρ σ ε} {course : Course ρ σ} {k : Socket} {c : Nat}

/-- The frame has a response to the request in the first frame of the stream, and room
for it. -/
def AnswersFirst (arrived response : Bytes) : Prop :=
  ∃ data m, readTcpRequest arrived = .ok data ∧ response = tcpFrame m ∧
    m.length ≤ maxDnsMessageSize ∧ RepliesTo data m

/-- More bytes behind the first request do not change its answer. -/
theorem AnswersFirst.append {arrived response : Bytes} (h : AnswersFirst arrived response)
    (more : Bytes) : AnswersFirst (arrived ++ more) response := by
  obtain ⟨data, m, hread, hframe, hsize, hreplies⟩ := h
  exact ⟨data, m, readTcpRequest_append hread more, hframe, hsize, hreplies⟩

/-- A handler writes one response at most, and it answers the first frame. -/
theorem sentBy_handledConnection : sentBy (handledConnection api course k c) = [] ∨
    ∃ response, sentBy (handledConnection api course k c) = [response] ∧
      AnswersFirst k.arrived response := by
  cases hread : readTcpRequest k.arrived with
  | ok data =>
      by_cases hfinds : ∃ finding, Finds api (course c).1 (course c).2 data finding
      · obtain ⟨finding, hfinds⟩ := hfinds
        rw [handledConnection, hfinds.framed hread]
        cases hm : encodeMessage (finding.response data) with
        | ok m =>
            obtain ⟨hsize, _, rfl⟩ := encodeMessage_eq_ok.mp hm
            exact .inr ⟨_, rfl, data, _, hread, rfl, hsize, hfinds.whole_repliesTo⟩
        | err e => exact .inl rfl
        | panic => exact .inl rfl
        | diverge => exact .inl rfl
      · exact .inl (framed_nil hread (not_exists.mp hfinds))
  | err e =>
      rw [handledConnection, handleTcpConnection, hread]
      exact .inl rfl
  | panic =>
      rw [handledConnection, handleTcpConnection, hread]
      exact .inl rfl
  | diverge =>
      rw [handledConnection, handleTcpConnection, hread]
      exact .inl rfl

end Responses

/-! ### The invariant -/

/-- What holds in every state of the listener. -/
structure Listener.Accounts (s : Listener) : Prop where
  permits : s.connections.Fits maxConnections
  places : s.connections.Settles s.accepted
  leaving : s.connections.Leaves s.leaving
  distinct : s.accepted.Nodup
  once : (s.sent.map Prod.fst).Subperm (s.leaving ++ s.connections.finished)
  answers : ∀ r ∈ s.sent, AnswersFirst (s.sockets r.1).arrived r.2

namespace Listener

variable {ρ σ ε : Type} {api : ResolverApi ρ σ ε} {course : Course ρ σ} {s s' : Listener}

/-- Nobody has connected. -/
theorem accounts_start : Listener.start.Accounts where
  permits := Admission.fits_new _
  places := Admission.settles_new _
  leaving := Admission.leaves_nil _
  distinct := List.nodup_nil
  once := List.nil_subperm
  answers _ h := absurd h List.not_mem_nil

/-- No connection has two responses. -/
theorem Accounts.one_response (h : s.Accounts) : (s.sent.map Prod.fst).Nodup := by
  have hdone := (h.leaving.distinct h.places h.distinct).of_append_left
  obtain ⟨l, hperm, hsub⟩ := h.once
  exact hperm.nodup_iff.mp (hsub.nodup hdone)

/-- Only the bytes that have come on a stream have changed. -/
theorem Accounts.sockets (h : s.Accounts) {sockets : Nat → Socket}
    (hgrows : ∀ c, ∃ more, (sockets c).arrived = (s.sockets c).arrived ++ more) :
    Accounts { s with sockets } := by
  refine { h with answers := fun r hr => ?_ }
  obtain ⟨more, hmore⟩ := hgrows r.1
  have hlonger := (h.answers r hr).append more
  rwa [← hmore] at hlonger

/-- Bytes come, or the peer hangs up. -/
theorem Accounts.update (h : s.Accounts) (c : Nat) (more : Bytes) (peer : Peer) :
    Accounts { s with
      sockets := Function.update s.sockets c ⟨(s.sockets c).arrived ++ more, peer⟩ } := by
  refine h.sockets fun c' => ?_
  by_cases hsame : c' = c
  · exact ⟨more, by rw [hsame, Function.update_self]⟩
  · exact ⟨[], by rw [Function.update_of_ne hsame, List.append_nil]⟩

/-- A handler returns without a response. -/
theorem Accounts.leave (h : s.Accounts) {c : Nat} (hc : c ∈ s.connections.running)
    (hinside : c ∉ s.leaving) : Accounts { s with leaving := s.leaving ++ [c] } := by
  refine { h with leaving := h.leaving.add hc hinside, once := h.once.trans ?_ }
  exact ((List.sublist_append_left _ _).append (.refl _)).subperm

/-- A handler comes to its end, with a response or without one. -/
theorem Accounts.handle (h : s.Accounts) {c : Nat} (hc : c ∈ s.connections.running)
    (hinside : c ∉ s.leaving) :
    Accounts { s with
      leaving := s.leaving ++ [c]
      sent := s.sent ++ (sentBy (handledConnection api course (s.sockets c) c)).map (c, ·) } := by
  have hone : sentBy (handledConnection api course (s.sockets c) c) = [] ∨
      ∃ response, sentBy (handledConnection api course (s.sockets c) c) = [response] ∧
        AnswersFirst (s.sockets c).arrived response := sentBy_handledConnection
  rcases hone with hnone | ⟨response, hsent, hanswers⟩
  · rw [hnone, List.map_nil, List.append_nil]
    exact h.leave hc hinside
  · rw [hsent]
    refine { h with leaving := h.leaving.add hc hinside, once := ?_, answers := fun r hr => ?_ }
    · rw [List.map_append]
      refine (h.once.append (.refl [c])).trans (List.Perm.subperm ?_)
      rw [List.append_assoc, List.append_assoc]
      exact List.Perm.append_left _ List.perm_append_comm
    · rcases List.mem_append.mp hr with hold | hnew
      · exact h.answers r hold
      · rw [List.mem_singleton.mp hnew]
        exact hanswers

/-- The permit of a connection that is done is dropped. -/
theorem Accounts.drop (h : s.Accounts) {c : Nat} (hc : c ∈ s.leaving) :
    Accounts { s with
      connections := s.connections.release c
      leaving := s.leaving.erase c } where
  permits := h.permits.release (h.leaving.running c hc)
  places := h.places.release (h.leaving.running c hc)
  leaving := h.leaving.release c
  distinct := h.distinct
  once := h.once.trans (Admission.done_release hc).subperm
  answers := h.answers

/-- Every step keeps the invariant. -/
theorem Accounts.tcp (h : s.Accounts) (hstep : TcpStep api course s s') : s'.Accounts := by
  cases hstep with
  | accept c hfresh =>
      refine ⟨h.permits.tryAcquire c, h.places.tryAcquire c, h.leaving.tryAcquire c, ?_, ?_,
        h.answers⟩
      · rw [← List.concat_eq_append]
        exact List.Nodup.concat hfresh h.distinct
      · rw [Admission.finished_tryAcquire]
        exact h.once
  | arrive c bytes _ => exact h.update c bytes .sending
  | hangUp c peer _ =>
      have hsame := h.update c [] peer
      rwa [List.append_nil] at hsame
  | handle c hc hinside _ _ => exact h.handle hc hinside
  | fail c hc hinside _ => exact h.leave hc hinside
  | drop c hc => exact h.drop hc

/-- The run lemma. -/
theorem tcpSteps_accounts (hsteps : TcpSteps api course s s') (h : s.Accounts) :
    s'.Accounts := by
  induction hsteps with
  | refl => exact h
  | tail _ hstep ih => exact ih.tcp hstep

/-- **The TCP listener accounts for its connections**: at most 512 run, each one
accepted runs, is done or was closed at once, none has two responses, a response
answers the first frame of its stream however the bytes have come, and a connection
is closed at once only while 512 run. -/
theorem tcp_runs_account (hrun : TcpSteps api course .start s) :
    s.Accounts ∧ (s.sent.map Prod.fst).Nodup ∧ ∀ s', TcpStep api course s s' →
      s'.connections.refused ≠ s.connections.refused →
        s.connections.running.length = maxConnections := by
  have haccounts := tcpSteps_accounts hrun accounts_start
  refine ⟨haccounts, haccounts.one_response, fun s' hstep hrefused => ?_⟩
  cases hstep with
  | accept c _ => exact Admission.refused_tryAcquire haccounts.permits hrefused
  | arrive c bytes _ => exact absurd rfl hrefused
  | hangUp c peer _ => exact absurd rfl hrefused
  | handle c _ _ _ _ => exact absurd rfl hrefused
  | fail c _ _ _ => exact absurd rfl hrefused
  | drop c _ => exact absurd (Admission.refused_release _ c) hrefused

/-- A connection that has sent one request. -/
def oneAsked : Listener where
  connections := Admission.tryAcquire (.new maxConnections) 0
  leaving := []
  sockets := Function.update (fun _ => ⟨[], .sending⟩) 0 ⟨tcpFrame askDatagram.data, .sending⟩
  accepted := [0]
  sent := []

/-- It was answered, and is closed. -/
def oneServed : Listener := { oneAsked with
  connections := oneAsked.connections.release 0
  sent := oneAsked.sent ++
    (sentBy (handledConnection emptyApi emptyCourse (oneAsked.sockets 0) 0)).map (0, ·) }

theorem oneServed_steps : TcpSteps emptyApi emptyCourse .start oneServed := by
  have haccept : TcpStep emptyApi emptyCourse .start _ := .accept .start 0 List.not_mem_nil
  have hasked : TcpSteps emptyApi emptyCourse .start oneAsked :=
    .tail (.single haccept) (.arrive _ 0 (tcpFrame askDatagram.data) rfl)
  have hanswered : sentBy (handledConnection emptyApi emptyCourse (oneAsked.sockets 0) 0) ≠ [] := by
    decide
  have hhandle : TcpStep emptyApi emptyCourse oneAsked _ :=
    .handle oneAsked 0 (List.mem_singleton.mpr rfl) List.not_mem_nil (by decide) fun hdiverges =>
      hanswered (by rw [hdiverges]; rfl)
  exact .tail (.tail hasked hhandle) (.drop _ 0 (List.mem_singleton.mpr rfl))

theorem tcp_runs_account_served :
    oneServed.Accounts ∧ (oneServed.sent.map Prod.fst).Nodup ∧
      ∀ s', TcpStep emptyApi emptyCourse oneServed s' →
        s'.connections.refused ≠ oneServed.connections.refused →
          oneServed.connections.running.length = maxConnections :=
  tcp_runs_account oneServed_steps

/-! ### Silent connections -/

/-- Every permit is taken by a connection on which nothing can be read yet. -/
structure Occupied (s : Listener) : Prop where
  full : s.connections.free = 0
  reading : s.leaving = []
  silent : ∀ c ∈ s.connections.running,
    (s.sockets c).peer = .sending ∧ ¬ (s.sockets c).Read

/-- A step in which the peers of the running connections do nothing. -/
def Undisturbed (step : Listener → Listener → Prop) (s s' : Listener) : Prop :=
  step s s' ∧ ∀ c ∈ s.connections.running, s'.sockets c = s.sockets c

/-- The connections in `late` were accepted since, but not one has started: all were
closed. -/
structure Shut (s s' : Listener) (late : List Nat) : Prop where
  occupied : s'.Occupied
  running : s'.connections.running = s.connections.running
  started : s'.connections.started = s.connections.started
  accepted : s'.accepted = s.accepted ++ late
  refused : s'.connections.refused = s.connections.refused ++ late
  sent : s'.sent = s.sent

/-- A full listener is shut, with nobody turned away so far. -/
theorem Occupied.shut (h : s.Occupied) : Shut s s [] :=
  ⟨h, rfl, rfl, (List.append_nil _).symm, (List.append_nil _).symm, rfl⟩

/-- The streams of other connections change. -/
theorem Occupied.sockets (h : s.Occupied) {sockets : Nat → Socket}
    (hsockets : ∀ c ∈ s.connections.running, sockets c = s.sockets c) :
    Shut s { s with sockets } [] where
  occupied := by
    refine { h with silent := fun c hc => ?_ }
    have hsame : sockets c = s.sockets c := hsockets c hc
    dsimp only
    rw [hsame]
    exact h.silent c hc
  running := rfl
  started := rfl
  accepted := (List.append_nil _).symm
  refused := (List.append_nil _).symm
  sent := rfl

/-- No handler of an occupied listener can end, and what it accepts it closes. -/
theorem Occupied.tcp (h : s.Occupied) (hstep : Undisturbed (TcpStep api course) s s') :
    ∃ late, Shut s s' late := by
  obtain ⟨hstep, hsockets⟩ := hstep
  cases hstep with
  | accept c _ =>
      rw [Admission.tryAcquire_full h.full]
      exact ⟨[c], ⟨h.full, h.reading, h.silent⟩, rfl, rfl, rfl, rfl, rfl⟩
  | arrive c bytes _ => exact ⟨[], h.sockets hsockets⟩
  | hangUp c peer _ => exact ⟨[], h.sockets hsockets⟩
  | handle c hc _ hread _ => exact absurd hread (h.silent c hc).2
  | fail c hc _ hreset =>
      have hsending := (h.silent c hc).1
      rw [hreset] at hsending
      cases hsending
  | drop c hc =>
      rw [h.reading] at hc
      cases hc

/-- Shut for a while, and then for longer. -/
theorem Shut.trans {s'' : Listener} {late later : List Nat} (h : Shut s s' late)
    (h' : Shut s' s'' later) : Shut s s'' (late ++ later) where
  occupied := h'.occupied
  running := h'.running.trans h.running
  started := h'.started.trans h.started
  accepted := by rw [h'.accepted, h.accepted, List.append_assoc]
  refused := by rw [h'.refused, h.refused, List.append_assoc]
  sent := h'.sent.trans h.sent

/-- The listener accepts connections one after the other. -/
def acceptAll (s : Listener) : List Nat → Listener
  | [] => s
  | c :: rest =>
      acceptAll { s with
        connections := s.connections.tryAcquire c
        accepted := s.accepted ++ [c] } rest

/-- The listener can accept connections one after the other. -/
theorem acceptAll_steps {cs : List Nat} (hfresh : ∀ c ∈ cs, c ∉ s.accepted) (hcs : cs.Nodup) :
    TcpSteps api course s (acceptAll s cs) := by
  induction cs generalizing s with
  | nil => exact .refl
  | cons c rest ih =>
      obtain ⟨hc, hrest⟩ := List.nodup_cons.mp hcs
      refine .head (.accept s c (hfresh c List.mem_cons_self)) (ih (fun c' hc' => ?_) hrest)
      simp only [List.mem_append, List.mem_singleton, not_or]
      exact ⟨hfresh c' (List.mem_cons_of_mem _ hc'), fun hsame => hc (hsame ▸ hc')⟩

/-- As many connections as there are free permits, on which nobody sends. -/
theorem acceptAll_occupied {cs : List Nat} (hfree : s.connections.free = cs.length)
    (hleaving : s.leaving = [])
    (hsilent : ∀ c, (s.sockets c).peer = .sending ∧ ¬ (s.sockets c).Read) :
    (acceptAll s cs).Occupied := by
  induction cs generalizing s with
  | nil => exact ⟨hfree, hleaving, fun c _ => hsilent c⟩
  | cons c rest ih =>
      have htaken : s.connections.tryAcquire c = s.connections.start c :=
        if_neg (by rw [hfree]; exact Nat.succ_ne_zero _)
      rw [acceptAll, htaken]
      refine ih ?_ hleaving hsilent
      simp [Admission.start, hfree]

/-- The listener with 512 connections on which nothing has come. -/
def silentListener : Listener := acceptAll .start (List.range maxConnections)

theorem silentListener_occupied : silentListener.Occupied := by
  refine acceptAll_occupied ?_ rfl fun c => ⟨rfl, ?_⟩
  · rw [List.length_range]
    rfl
  · rintro (hclosed | ⟨hlen, _⟩)
    · cases hclosed
    · exact absurd hlen (Nat.not_succ_le_zero 1)

/-- **512 silent connections keep all others out.** Once every permit is taken by a
connection on which nothing can be read, then as long as their peers do nothing, no
other connection is served: every one that is accepted is closed. From the start, the
listener gets there by accepting 512 connections. -/
theorem silent_connections_exclude (api : ResolverApi ρ σ ε) (course : Course ρ σ)
    (hoccupied : s.Occupied) :
    (∀ s', Relation.ReflTransGen (Undisturbed (TcpStep api course)) s s' → ∃ late, Shut s s' late) ∧
    TcpSteps api course .start silentListener ∧ silentListener.Occupied := by
  refine ⟨fun s' hsteps => ?_, acceptAll_steps (fun c _ => List.not_mem_nil) List.nodup_range,
    silentListener_occupied⟩
  induction hsteps with
  | refl => exact ⟨[], hoccupied.shut⟩
  | tail _ hstep ih =>
      obtain ⟨late, hshut⟩ := ih
      obtain ⟨later, hshut'⟩ := hshut.occupied.tcp hstep
      exact ⟨late ++ later, hshut.trans hshut'⟩

theorem silent_connections_exclude_range :
    TcpSteps emptyApi emptyCourse .start silentListener ∧
      ∀ s', Relation.ReflTransGen (Undisturbed (TcpStep emptyApi emptyCourse)) silentListener s' →
        ∃ late, Shut silentListener s' late :=
  have hexclude := silent_connections_exclude emptyApi emptyCourse silentListener_occupied
  ⟨hexclude.2.1, hexclude.1⟩

end Listener

end FastDns.Server
