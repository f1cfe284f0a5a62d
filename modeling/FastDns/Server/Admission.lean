/-
The receive loop of the UDP server (`src/server/udp.rs`: `run_server`,
`handle_recv`).

The loop takes one datagram after the other. A datagram that finds a permit
becomes a task that runs `handle_query`; one that finds none is answered with an
error by the loop itself, and a task only sends that response. Tasks run side by
side and end in any order. A task has sent its response before it drops its permit;
one that panics drops it like any other.

What a task will meet, in the network and in the caches, is given beforehand
(`Course`): a task that is caught in the resolver for ever has a course with which
`handle_query` does not return, from the start.

Whatever the order of steps, permits are neither lost nor made, every datagram has
one place, and every response answers a datagram of its own
(`udp_runs_account`). What the permits do not survive is a task that never ends:
the server gets all its permits back exactly if no running task is of that kind
(`capacity_recovers_iff`), and a few datagrams with a compression loop stop the
receive loop for good (`looping_datagrams_hang`).
-/

import FastDns.Lib.Admission
import FastDns.Lib.Alike
import FastDns.Server.ClientOptions
import Mathlib.Logic.Relation

namespace FastDns.Server

open FastDns.Lib FastDns.Dns

/-! ### The server -/

structure SocketAddr where
  ip : IpAddr
  port : UInt16
deriving DecidableEq, Repr

/-- A datagram, as `recv_from` returns it. -/
structure Datagram where
  src : SocketAddr
  data : Bytes
deriving DecidableEq, Repr

/-- `MAX_CONCURRENT_QUERIES` -/
def maxConcurrentQueries : Nat := 1024

/-- What has become of the loop of `run_server`. -/
inductive LoopState where
  | listening
  | stopped
  | panicked
  | hung
deriving DecidableEq, Repr

structure UdpServer where
  loop : LoopState
  received : List Datagram
  /-- The tasks that run `handle_query`, around the semaphore; a task has the number of
  its datagram. -/
  queries : Admission Nat
  /-- The tasks that are out of `handle_query` and still have their permit. -/
  leaving : List Nat
  /-- The tasks that only send an error response. -/
  refusals : List (Nat × Bytes)
  sent : List (SocketAddr × Bytes)

/-- The state in which the loop of `run_server` begins. -/
def UdpServer.start : UdpServer := ⟨.listening, [], .new maxConcurrentQueries, [], [], []⟩

/-- `handle_recv` -/
def handleRecv (s : UdpServer) (d : Datagram) : UdpServer :=
  let i := s.received.length
  let s' := { s with queries := s.queries.tryAcquire i, received := s.received ++ [d] }
  if s.queries.free ≠ 0 then s'
  else
    -- The response is built by the loop, before any task is spawned.
    match quickErrorResponse d.data 2 with
    | .ok (some response) => { s' with refusals := s.refusals ++ [(i, response)] }
    | .ok none => s'
    | .err _ => s'
    | .panic => { s' with loop := .panicked }
    | .diverge => { s' with loop := .hung }

/-- A new datagram ends no task. -/
theorem leaving_handleRecv (s : UdpServer) (d : Datagram) :
    (handleRecv s d).leaving = s.leaving := by
  unfold handleRecv
  dsimp only
  split
  · rfl
  · split <;> rfl

/-- It is the last one received. -/
theorem received_handleRecv (s : UdpServer) (d : Datagram) :
    (handleRecv s d).received = s.received ++ [d] := by
  unfold handleRecv
  dsimp only
  split
  · rfl
  · split <;> rfl

/-- The environment and the world that each task runs in. -/
abbrev Course (ρ σ : Type) := Nat → ρ × σ

section Steps

variable {ρ σ ε : Type} (api : ResolverApi ρ σ ε) (course : Course ρ σ)

/-- What `handle_query` does with the `i`-th datagram, for some resolver behind it. -/
abbrev handled (d : Datagram) (i : Nat) :
    Outcome ((DnsError ⊕ ε) × ServerSt σ) (Unit × ServerSt σ) :=
  handleQuery api d.data (course i).1 ⟨(course i).2, []⟩

/-- A step of the loop or of one of the tasks. -/
inductive UdpStep : UdpServer → UdpServer → Prop where
  | recv (s : UdpServer) (d : Datagram) : s.loop = .listening → UdpStep s (handleRecv s d)
  /-- `handle_query` comes to its end, also by a panic. -/
  | handle (s : UdpServer) (i : Nat) (d : Datagram) : i ∈ s.queries.running →
      i ∉ s.leaving → s.received[i]? = some d → handled api course d i ≠ .diverge →
      UdpStep s { s with
        leaving := s.leaving ++ [i]
        sent := s.sent ++ (sentBy (handled api course d i)).map fun bytes => (d.src, bytes) }
  /-- The task ends, and drops its permit. -/
  | drop (s : UdpServer) (i : Nat) : i ∈ s.leaving →
      UdpStep s { s with queries := s.queries.release i, leaving := s.leaving.erase i }
  | refuse (s : UdpServer) (i : Nat) (d : Datagram) (response : Bytes) :
      (i, response) ∈ s.refusals → s.received[i]? = some d →
      UdpStep s { s with
        refusals := s.refusals.erase (i, response)
        sent := s.sent ++ [(d.src, response)] }
  | stop (s : UdpServer) : s.loop = .listening → UdpStep s { s with loop := .stopped }

/-- Any number of steps. -/
abbrev UdpSteps : UdpServer → UdpServer → Prop := Relation.ReflTransGen (UdpStep api course)

end Steps

/-! ### Responses -/

/-- The response has the id of the request, and is a response. -/
def RepliesTo (data response : Bytes) : Prop :=
  ∃ header, Header.fromBytes response = .ok header ∧ header.id = u16At data 0 ∧ header.qr = true

/-- It goes to the sender of the datagram, too. -/
def Answers (d : Datagram) (sent : SocketAddr × Bytes) : Prop :=
  sent.1 = d.src ∧ RepliesTo d.data sent.2

section Responses

variable {ρ σ ε : Type} {api : ResolverApi ρ σ ε} {env : ρ} {world : σ} {data : Bytes}
  {finding : Finding}

/-- A response has the identifier of its query and is marked as a response. -/
theorem Finds.response_id (h : Finds api env world data finding) :
    (finding.response data).header.id = u16At data 0 ∧
      (finding.response data).header.qr = true := by
  have hasked_id : ∀ {query : Message} {question : Question}, Asked data query question →
      query.header.id = u16At data 0 :=
    fun hasked => (header_eq_ok.mp (decodeMessage_header hasked.decoded)).id
  cases h with
  | undecodable _ _ _ => exact ⟨rfl, rfl⟩
  | answer hasked _ _ =>
      have hid := hasked_id hasked
      exact ⟨hid, rfl⟩
  | nameError hasked _ =>
      have hid := hasked_id hasked
      exact ⟨hid, rfl⟩
  | failed hasked _ _ =>
      have hid := hasked_id hasked
      exact ⟨hid, rfl⟩

/-- So is the whole message a reply to the query. -/
theorem Finds.whole_repliesTo (h : Finds api env world data finding) :
    RepliesTo data (finding.response data).wire := by
  obtain ⟨hid, hqr⟩ := h.response_id
  obtain ⟨header, hread, hsame⟩ := header_of_response (finding.response_header data)
    (wire_standsAt (finding.response data)).1
  exact ⟨header, hread, hsame.id.trans hid, hsame.qr.trans hqr⟩

/-- And so is what is left of it when it is cut down to a datagram. -/
theorem Finds.repliesTo (h : Finds api env world data finding) :
    RepliesTo data
      (datagram finding.result (finding.response data) (finding.response data).wire) := by
  obtain ⟨hid, hqr⟩ := h.response_id
  unfold datagram
  split
  · split
    · have hcut : (truncated (finding.response data)).header.opcode = 0 ∧
          (truncated (finding.response data)).header.z = 0 ∧
          (truncated (finding.response data)).header.rcode.toNat < 16 :=
        finding.response_header data
      obtain ⟨header, hread, hsame⟩ := header_of_response hcut standsAt_take
      exact ⟨header, hread, hsame.id.trans hid, hsame.qr.trans hqr⟩
    · exact h.whole_repliesTo
  · exact h.whole_repliesTo

/-- **A handler sends one response at most**, and it replies to the request. -/
theorem sentBy_handleQuery :
    sentBy (handleQuery api data env ⟨world, []⟩) = [] ∨
      ∃ d, sentBy (handleQuery api data env ⟨world, []⟩) = [d] ∧ RepliesTo data d := by
  by_cases hfinds : ∃ finding, Finds api env world data finding
  · obtain ⟨finding, hfinds⟩ := hfinds
    rw [hfinds.sent]
    cases hm : encodeMessage (finding.response data) with
    | ok m =>
        obtain ⟨_, rfl⟩ := (finding.encodeMessage_response data).mp hm
        exact .inr ⟨_, rfl, hfinds.repliesTo⟩
    | err e => exact .inl rfl
    | panic => exact .inl rfl
    | diverge => exact .inl rfl
  · exact .inl (sent_nil (not_exists.mp hfinds))

/-- The refusal has them from the query as well. -/
theorem quickErrorResponse_repliesTo {response : Bytes}
    (h : quickErrorResponse data 2 = .ok (some response)) : RepliesTo data response := by
  unfold quickErrorResponse at h
  split at h
  · cases h
  · rename_i hlen
    rw [readU16_of_le (by omega), Outcome.ok_bind] at h
    obtain ⟨questions, _, h⟩ := Outcome.bind_eq_ok.mp h
    obtain ⟨encoded, hencoded, h⟩ := Outcome.bind_eq_ok.mp h
    cases encoded with
    | error e => cases h
    | ok m =>
        cases h
        obtain ⟨_, _, rfl⟩ := encodeMessage_eq_ok.mp (Outcome.attempt_eq_ok.mp hencoded)
        obtain ⟨header, hread, hsame⟩ := header_of_response
          ⟨rfl, rfl, (by decide : (2 : UInt8).toNat < 16)⟩ (wire_standsAt
            ⟨Header.newResponse (u16At data 0) 2, questions, [], [], []⟩).1
        exact ⟨header, hread, hsame.id, hsame.qr⟩

end Responses

/-! ### The invariant -/

/-- The response answers the `i`-th datagram. -/
def UdpServer.Answered (s : UdpServer) (i : Nat) (sent : SocketAddr × Bytes) : Prop :=
  ∃ d, s.received[i]? = some d ∧ Answers d sent

/-- What holds in every state of the server. -/
structure UdpServer.Accounts (s : UdpServer) : Prop where
  permits : s.queries.Fits maxConcurrentQueries
  places : s.queries.Settles (List.range s.received.length)
  nobody_waits : s.queries.waiting = []
  leaving : s.queries.Leaves s.leaving
  /-- The datagrams that were answered, in the order of the responses. -/
  answered : ∃ origins : List Nat, List.Forall₂ s.Answered origins s.sent ∧
    (origins ++ s.refusals.map Prod.fst).Subperm
      (s.leaving ++ s.queries.finished ++ s.queries.refused)
  refusals : ∀ reply ∈ s.refusals, ∃ d, s.received[reply.1]? = some d ∧ RepliesTo d.data reply.2

/-- Nothing has been received, so there is nothing to account for. -/
theorem accounts_start : UdpServer.start.Accounts where
  permits := Admission.fits_new _
  places := Admission.settles_new _
  nobody_waits := rfl
  leaving := Admission.leaves_nil _
  answered := ⟨[], .nil, List.nil_subperm⟩
  refusals _ h := absurd h List.not_mem_nil

section Accounts

variable {ρ σ ε : Type} {api : ResolverApi ρ σ ε} {course : Course ρ σ} {s s' : UdpServer}

/-- A datagram keeps its number. -/
theorem getElem?_received {received : List Datagram} {i : Nat} {d : Datagram}
    (h : received[i]? = some d) (later : List Datagram) : (received ++ later)[i]? = some d := by
  rw [List.getElem?_append_left (List.getElem?_eq_some_iff.mp h).1, h]

/-- A datagram is received: whatever becomes of it, the others are where they were. -/
theorem UdpServer.Accounts.recv (h : s.Accounts) (d : Datagram) : (handleRecv s d).Accounts := by
  obtain ⟨origins, hanswers, hsub⟩ := h.answered
  have hpermits := h.permits.tryAcquire s.received.length
  have hplaces := h.places.tryAcquire s.received.length
  rw [← List.range_succ] at hplaces
  have hlength : (s.received ++ [d]).length = s.received.length + 1 := List.length_append
  have hwaiting := (Admission.waiting_tryAcquire s.queries s.received.length).trans h.nobody_waits
  have hgrows : (s.leaving ++ s.queries.finished ++ s.queries.refused).Subperm
      (s.leaving ++ (s.queries.tryAcquire s.received.length).finished ++
        (s.queries.tryAcquire s.received.length).refused) := by
    rw [Admission.finished_tryAcquire]
    refine (List.Sublist.append (.refl _) ?_).subperm
    unfold Admission.tryAcquire
    split
    · exact List.sublist_append_left _ _
    · exact .refl _
  have hkept : List.Forall₂ (fun i sent => ∃ d', (s.received ++ [d])[i]? = some d' ∧
      Answers d' sent) origins s.sent := by
    refine hanswers.imp ?_
    rintro i sent ⟨d', hd', hsent⟩
    exact ⟨d', getElem?_received hd' [d], hsent⟩
  have hreplies : ∀ reply ∈ s.refusals, ∃ d', (s.received ++ [d])[reply.1]? = some d' ∧
      RepliesTo d'.data reply.2 := by
    intro reply hreply
    obtain ⟨d', hd', hreplies⟩ := h.refusals reply hreply
    exact ⟨d', getElem?_received hd' [d], hreplies⟩
  -- Nothing but the queue and the log changes.
  have hplain : ∀ loop, UdpServer.Accounts ⟨loop, s.received ++ [d],
      s.queries.tryAcquire s.received.length, s.leaving, s.refusals, s.sent⟩ := fun loop =>
    ⟨hpermits, hlength ▸ hplaces, hwaiting, h.leaving.tryAcquire _,
      ⟨origins, hkept, hsub.trans hgrows⟩, hreplies⟩
  unfold handleRecv
  dsimp only
  split
  · exact hplain _
  · rename_i hfree
    split
    · rename_i response hresponse
      refine { hplain s.loop with answered := ⟨origins, hkept, ?_⟩, refusals := ?_ }
      · rw [Admission.tryAcquire_full (not_not.mp hfree)]
        simp only [List.map_append, List.map_cons, List.map_nil, ← List.append_assoc]
        exact hsub.append (.refl [s.received.length])
      · intro reply hreply
        rcases List.mem_append.mp hreply with hold | hnew
        · exact hreplies reply hold
        · rw [List.mem_singleton.mp hnew]
          exact ⟨d, by simp, quickErrorResponse_repliesTo hresponse⟩
    · exact hplain _
    · exact hplain _
    · exact hplain _
    · exact hplain _

/-- A task comes out of `handle_query`, with a response or without one. -/
theorem UdpServer.Accounts.handle (h : s.Accounts) {i : Nat} {d : Datagram}
    (hi : i ∈ s.queries.running) (hinside : i ∉ s.leaving) (hd : s.received[i]? = some d) :
    UdpServer.Accounts { s with
      leaving := s.leaving ++ [i]
      sent := s.sent ++ (sentBy (handled api course d i)).map fun bytes => (d.src, bytes) } := by
  obtain ⟨origins, hanswers, hsub⟩ := h.answered
  have hout : ((origins ++ [i]) ++ s.refusals.map Prod.fst).Subperm
      ((s.leaving ++ [i]) ++ s.queries.finished ++ s.queries.refused) := by
    refine (List.Perm.subperm ?_).trans ((hsub.append (.refl [i])).trans (List.Perm.subperm ?_))
    · rw [List.append_assoc, List.append_assoc]
      exact List.Perm.append_left _ List.perm_append_comm
    · simp only [List.append_assoc]
      refine List.Perm.append_left _ ?_
      rw [← List.append_assoc]
      exact List.perm_append_comm
  have hskipped : (origins ++ s.refusals.map Prod.fst).Subperm
      ((s.leaving ++ [i]) ++ s.queries.finished ++ s.queries.refused) :=
    ((List.sublist_append_left origins [i]).append (.refl _)).subperm.trans hout
  have hone : sentBy (handled api course d i) = [] ∨
      ∃ bytes, sentBy (handled api course d i) = [bytes] ∧ RepliesTo d.data bytes :=
    sentBy_handleQuery
  refine ⟨h.permits, h.places, h.nobody_waits, h.leaving.add hi hinside, ?_, h.refusals⟩
  rcases hone with hnone | ⟨bytes, hsent, hreplies⟩
  · refine ⟨origins, ?_, hskipped⟩
    rw [hnone, List.map_nil, List.append_nil]
    exact hanswers
  · refine ⟨origins ++ [i], ?_, hout⟩
    rw [hsent, List.map_singleton]
    exact List.rel_append hanswers (.cons ⟨d, hd, rfl, hreplies⟩ .nil)

/-- The permit of a task that is out of `handle_query` is dropped. -/
theorem UdpServer.Accounts.drop (h : s.Accounts) {i : Nat} (hi : i ∈ s.leaving) :
    UdpServer.Accounts { s with
      queries := s.queries.release i, leaving := s.leaving.erase i } := by
  obtain ⟨origins, hanswers, hsub⟩ := h.answered
  have hrunning := h.leaving.running i hi
  refine ⟨h.permits.release hrunning, h.places.release hrunning, ?_, h.leaving.release i,
    ⟨origins, hanswers, ?_⟩, h.refusals⟩
  · rw [Admission.waiting_release, h.nobody_waits]
    rfl
  · rw [Admission.refused_release]
    exact hsub.trans ((Admission.done_release hi).append_right _).subperm

/-- A refusal that is sent was owed. -/
theorem UdpServer.Accounts.refuse (h : s.Accounts) {i : Nat} {d : Datagram} {response : Bytes}
    (hreply : (i, response) ∈ s.refusals) (hd : s.received[i]? = some d) :
    UdpServer.Accounts { s with
      refusals := s.refusals.erase (i, response)
      sent := s.sent ++ [(d.src, response)] } := by
  obtain ⟨origins, hanswers, hsub⟩ := h.answered
  obtain ⟨d', hd', hreplies⟩ := h.refusals _ hreply
  obtain rfl : d' = d := Option.some.inj (hd'.symm.trans hd)
  refine { h with answered := ⟨origins ++ [i], ?_, ?_⟩, refusals := ?_ }
  · exact List.rel_append hanswers (.cons ⟨d', hd, rfl, hreplies⟩ .nil)
  · refine (List.Perm.subperm ?_).trans hsub
    rw [List.append_assoc]
    exact List.Perm.append_left _ ((List.perm_cons_erase hreply).map Prod.fst).symm
  · exact fun other hother => h.refusals other (List.mem_of_mem_erase hother)

/-- **The step lemma**: each kind of step keeps the account. -/
theorem UdpStep.accounts (hstep : UdpStep api course s s') (h : s.Accounts) : s'.Accounts := by
  cases hstep with
  | recv d _ => exact h.recv d
  | handle i d hi hinside hd _ => exact h.handle hi hinside hd
  | drop i hi => exact h.drop hi
  | refuse i d response hreply hd => exact h.refuse hreply hd
  | stop _ => exact { h with }

/-- The run lemma. -/
theorem UdpSteps.accounts (hsteps : UdpSteps api course s s') (h : s.Accounts) : s'.Accounts := by
  induction hsteps with
  | refl => exact h
  | tail _ hstep ih => exact hstep.accounts ih

/-- **Every run accounts for permits, datagrams and responses**: at most 1024 tasks
run and the other permits are free, every datagram received runs, is finished or
was turned away, every response answers a datagram of its own, with its id and to its
sender, whose task is out of `handle_query` (it may not have dropped its permit yet)
or which was turned away, and a datagram is turned away only while 1024 tasks
run. -/
theorem udp_runs_account (hrun : UdpSteps api course .start s) :
    s.Accounts ∧ (s.leaving ++ s.queries.finished ++ s.queries.refused).Nodup ∧
      ∀ s', UdpStep api course s s' → s'.queries.refused ≠ s.queries.refused →
        s.queries.running.length = maxConcurrentQueries := by
  have haccounts := hrun.accounts accounts_start
  refine ⟨haccounts, haccounts.leaving.distinct haccounts.places List.nodup_range,
    fun s' hstep hrefused => ?_⟩
  cases hstep with
  | recv d _ =>
      refine Admission.refused_tryAcquire haccounts.permits (i := s.received.length) fun hsame =>
        hrefused ?_
      rw [← hsame]
      unfold handleRecv
      dsimp only
      split
      · rfl
      · split <;> rfl
  | handle i d _ _ _ _ => exact absurd rfl hrefused
  | drop i _ => exact absurd (Admission.refused_release _ i) hrefused
  | refuse i d response _ _ => exact absurd rfl hrefused
  | stop _ => exact absurd rfl hrefused

/-- A resolver that knows no records. -/
def emptyApi : ResolverApi Unit Unit Unit where
  resolveWithAd := fun _ _ _ => pure (.ok ([], false))
  resolveDnssec := fun _ _ _ => pure []

def emptyCourse : Course Unit Unit := fun _ => ((), ())

/-- A query for the address of `a`. -/
def askDatagram : Datagram :=
  ⟨⟨.v4 ⟨192, 0, 2, 1⟩, 5353⟩,
    [0x12, 0x34, 0x01, 0x00, 0, 1, 0, 0, 0, 0, 0, 0, 1, 97, 0, 0, 1, 0, 1]⟩

def asked : UdpServer := handleRecv .start askDatagram

/-- The response is sent, and the permit not dropped yet. -/
def askedAnswered : UdpServer := { asked with
  leaving := [0]
  sent := (sentBy (handled emptyApi emptyCourse askDatagram 0)).map (askDatagram.src, ·) }

theorem asked_steps : UdpSteps emptyApi emptyCourse .start asked :=
  .single (.recv .start askDatagram rfl)

theorem askDatagram_answered : sentBy (handled emptyApi emptyCourse askDatagram 0) ≠ [] := by
  decide

theorem askDatagram_returns : handled emptyApi emptyCourse askDatagram 0 ≠ .diverge := by
  intro hdiverges
  exact askDatagram_answered (by rw [hdiverges]; rfl)

theorem askedAnswered_steps : UdpSteps emptyApi emptyCourse .start askedAnswered :=
  .tail asked_steps (.handle asked 0 askDatagram (List.mem_singleton.mpr rfl) List.not_mem_nil rfl
    askDatagram_returns)

theorem udp_runs_account_answered :
    askedAnswered.sent ≠ [] ∧ askedAnswered.Accounts ∧
      (askedAnswered.leaving ++ askedAnswered.queries.finished ++
        askedAnswered.queries.refused).Nodup ∧
      ∀ s', UdpStep emptyApi emptyCourse askedAnswered s' →
        s'.queries.refused ≠ askedAnswered.queries.refused →
          askedAnswered.queries.running.length = maxConcurrentQueries :=
  ⟨List.map_eq_nil_iff.not.mpr askDatagram_answered, udp_runs_account askedAnswered_steps⟩

end Accounts

/-! ### Tasks that never end -/

section Stuck

variable {ρ σ ε : Type} {api : ResolverApi ρ σ ε} {course : Course ρ σ} {s s' : UdpServer}
  {i : Nat} {d : Datagram}

/-- `handle_query` comes to its end in the `i`-th task. -/
def UdpServer.Returns (api : ResolverApi ρ σ ε) (course : Course ρ σ) (s : UdpServer)
    (i : Nat) : Prop :=
  ∀ d, s.received[i]? = some d → handled api course d i ≠ .diverge

/-- The task runs, inside `handle_query`, and will never be out of it. -/
structure Stuck (api : ResolverApi ρ σ ε) (course : Course ρ σ) (s : UdpServer) (i : Nat) :
    Prop where
  running : i ∈ s.queries.running
  inside : i ∉ s.leaving
  diverges : ∃ d, s.received[i]? = some d ∧ handled api course d i = .diverge

/-- A datagram that comes in does not help a task that is stuck. -/
theorem Stuck.recv (h : Stuck api course s i) (d : Datagram) :
    Stuck api course (handleRecv s d) i := by
  obtain ⟨d', hd', hdiverges⟩ := h.diverges
  have hkept : ∀ loop refusals, Stuck api course ⟨loop, s.received ++ [d],
      s.queries.tryAcquire s.received.length, s.leaving, refusals, s.sent⟩ i := fun _ _ =>
    ⟨Admission.mem_running_tryAcquire h.running _, h.inside, d', getElem?_received hd' [d],
      hdiverges⟩
  unfold handleRecv
  dsimp only
  split
  · exact hkept _ _
  · split <;> exact hkept _ _

/-- It is there for good. -/
theorem Stuck.step (h : Stuck api course s i) (hwaiting : s.queries.waiting = [])
    (hstep : UdpStep api course s s') : Stuck api course s' i := by
  cases hstep with
  | recv d _ => exact h.recv d
  | handle j d _ _ hd hreturns =>
      refine ⟨h.running, fun hi => ?_, h.diverges⟩
      rcases List.mem_append.mp hi with hold | hnew
      · exact h.inside hold
      · obtain ⟨d', hd', hdiverges⟩ := h.diverges
        rw [List.mem_singleton.mp hnew] at hd' hdiverges
        rw [hd] at hd'
        cases hd'
        exact hreturns hdiverges
  | drop j hj =>
      have hne : i ≠ j := by
        rintro rfl
        exact h.inside hj
      refine ⟨?_, fun hi => h.inside (List.mem_of_mem_erase hi), h.diverges⟩
      rw [Admission.release_of_idle hwaiting]
      exact (List.mem_erase_of_ne hne).mpr h.running
  | refuse j d response _ _ => exact ⟨h.running, h.inside, h.diverges⟩
  | stop _ => exact ⟨h.running, h.inside, h.diverges⟩

/-- Nor does anything else: it is stuck for good. -/
theorem Stuck.steps (h : Stuck api course s i) (haccounts : s.Accounts)
    (hsteps : UdpSteps api course s s') : Stuck api course s' i := by
  induction hsteps with
  | refl => exact h
  | @tail middle last hbefore hstep ih =>
      have hbefore : UdpSteps api course s middle := hbefore
      exact ih.step (hbefore.accounts haccounts).nobody_waits hstep

/-- A running task has a datagram. -/
theorem UdpServer.Accounts.datagram (h : s.Accounts) (hi : i ∈ s.queries.running) :
    ∃ d, s.received[i]? = some d := by
  have hstarted := h.places.started.mem_iff.mpr (List.mem_append_left _ hi)
  have hasked := h.places.asked.mem_iff.mpr
    (List.mem_append_left _ (List.mem_append_left _ hstarted))
  exact ⟨_, List.getElem?_eq_getElem (List.mem_range.mp hasked)⟩

/-- A task that returns and the end of its run: one step or two. -/
theorem ends (h : s.Accounts) (hi : i ∈ s.queries.running)
    (hreturns : s.Returns api course i) :
    ∃ s', UdpSteps api course s s' ∧ s'.queries.running = s.queries.running.erase i ∧
      s'.received = s.received := by
  by_cases hout : i ∈ s.leaving
  · refine ⟨_, .single (.drop s i hout), ?_, rfl⟩
    rw [Admission.release_of_idle h.nobody_waits]
  · obtain ⟨d, hd⟩ := h.datagram hi
    have hfirst : UdpStep api course s _ := .handle s i d hi hout hd (hreturns d hd)
    refine ⟨_, .tail (.single hfirst) (.drop _ i (List.mem_append_right _
      (List.mem_singleton.mpr rfl))), ?_, rfl⟩
    rw [Admission.release_of_idle h.nobody_waits]

/-- Tasks that return can end one after the other. -/
theorem drains (h : s.Accounts)
    (hreturns : ∀ i ∈ s.queries.running, s.Returns api course i) :
    ∃ s', UdpSteps api course s s' ∧ s'.queries.running = [] := by
  generalize hrunning : s.queries.running = running at hreturns
  induction running generalizing s with
  | nil => exact ⟨s, .refl, hrunning⟩
  | cons i rest ih =>
      obtain ⟨hfirst, hrest⟩ := List.forall_mem_cons.mp hreturns
      have hmem : i ∈ s.queries.running := by
        rw [hrunning]
        exact List.mem_cons_self
      obtain ⟨s₁, hsteps₁, hleft, hreceived⟩ := ends h hmem hfirst
      rw [hrunning, List.erase_cons_head] at hleft
      have hothers : ∀ j ∈ rest, s₁.Returns api course j := by
        intro j hj d hd
        rw [hreceived] at hd
        exact hrest j hj d hd
      obtain ⟨s', hsteps, hidle⟩ := ih (hsteps₁.accounts h) hleft hothers
      exact ⟨s', hsteps₁.trans hsteps, hidle⟩

/-- A response that was sent came out of `handle_query`. -/
def LeavingReturned (api : ResolverApi ρ σ ε) (course : Course ρ σ) (s : UdpServer) : Prop :=
  ∀ i ∈ s.leaving, s.Returns api course i

/-- A task is put among the leaving ones only when it has returned. -/
theorem LeavingReturned.step (h : LeavingReturned api course s) (haccounts : s.Accounts)
    (hstep : UdpStep api course s s') : LeavingReturned api course s' := by
  cases hstep with
  | recv d _ =>
      intro i hi d' hd'
      rw [leaving_handleRecv] at hi
      obtain ⟨old, hold⟩ := haccounts.datagram (haccounts.leaving.running i hi)
      rw [received_handleRecv, getElem?_received hold [d]] at hd'
      cases hd'
      exact h i hi _ hold
  | handle j d _ _ hd hreturns =>
      intro i hi d' hd'
      rcases List.mem_append.mp hi with hold | hnew
      · exact h i hold d' hd'
      · have hsame : i = j := List.mem_singleton.mp hnew
        subst hsame
        have hd' : s.received[i]? = some d' := hd'
        rw [hd] at hd'
        cases hd'
        exact hreturns
  | drop j hj => exact fun i hi => h i (List.mem_of_mem_erase hi)
  | refuse j d response _ _ => exact h
  | stop _ => exact h

/-- In every run from the start. -/
theorem leavingReturned (hrun : UdpSteps api course .start s) : LeavingReturned api course s := by
  induction hrun with
  | refl => exact fun i hi => absurd hi List.not_mem_nil
  | @tail middle last hbefore hstep ih =>
      have hbefore : UdpSteps api course .start middle := hbefore
      exact ih.step (hbefore.accounts accounts_start) hstep

/-- **When the server gets all its permits back**: from a state of a run there is a
continuation to one in which all 1024 are free exactly if every running task comes
out of `handle_query`. One that does not, be it in the decoder or in the resolver,
runs in every continuation and keeps its permit. -/
theorem capacity_recovers_iff (hrun : UdpSteps api course .start s) :
    ((∃ s', UdpSteps api course s s' ∧ s'.queries.free = maxConcurrentQueries) ↔
      ∀ i ∈ s.queries.running, s.Returns api course i) ∧
    ∀ i ∈ s.queries.running, ¬ s.Returns api course i →
      ∀ s', UdpSteps api course s s' → i ∈ s'.queries.running := by
  have haccounts := hrun.accounts accounts_start
  have hstuck : ∀ i ∈ s.queries.running, ¬ s.Returns api course i →
      ∀ s', UdpSteps api course s s' → i ∈ s'.queries.running := by
    intro i hi hnot s' hsteps
    have hinside : i ∉ s.leaving := fun hout => hnot (leavingReturned hrun i hout)
    obtain ⟨d, hd⟩ := haccounts.datagram hi
    have hdiverges : handled api course d i = .diverge := by
      by_contra hreturns
      refine hnot fun d' hd' => ?_
      rw [hd] at hd'
      cases hd'
      exact hreturns
    exact (Stuck.steps ⟨hi, hinside, d, hd, hdiverges⟩ haccounts hsteps).running
  refine ⟨⟨?_, fun hreturns => ?_⟩, hstuck⟩
  · rintro ⟨s', hsteps, hfree⟩ i hi
    by_contra hnot
    have hpos := List.length_pos_of_mem (hstuck i hi hnot s' hsteps)
    have hconserved := (hsteps.accounts haccounts).permits.conserved
    omega
  · obtain ⟨s', hsteps, hidle⟩ := drains haccounts hreturns
    exact ⟨s', hsteps, (hsteps.accounts haccounts).permits.free_of_idle hidle⟩

theorem capacity_recovers_iff_asked :
    ∃ s', UdpSteps emptyApi emptyCourse asked s' ∧ s'.queries.free = maxConcurrentQueries := by
  refine (capacity_recovers_iff asked_steps).1.mpr fun i hi d hd => ?_
  obtain rfl := List.mem_singleton.mp hi
  cases hd
  exact askDatagram_returns

end Stuck

/-! ### Compression loops -/

/-- The name of the first question is a compression loop. -/
structure Looping (data : Bytes) : Prop where
  long : 12 ≤ data.length
  counted : (u16At data 4).toNat % 4096 ≠ 0
  loops : decodeDomainName data 12 = .diverge

section Looping

variable {data : Bytes}

/-- The name of such a question leads to itself. -/
theorem Looping.question (h : Looping data) : Question.fromBytes data 12 = .diverge := by
  rw [Question.fromBytes, h.loops, Outcome.diverge_bind]

/-- So the message cannot be decoded, -/
theorem Looping.decode (h : Looping data) : decodeMessage data = .diverge := by
  obtain ⟨header, hheader, hfrom⟩ := header_of_le h.long
  have hcount : header.qdcount.toNat ≠ 0 := by
    rw [hfrom.qdcount]
    intro hzero
    exact h.counted (by rw [hzero])
  obtain ⟨count, hcount⟩ := Nat.exists_eq_succ_of_ne_zero hcount
  rw [decodeMessage, Message.fromBytes, hheader, Outcome.ok_bind, hcount, parseItems, h.question]
  rfl

/-- nor can the refusal be written, which copies the question. -/
theorem Looping.quickError (h : Looping data) (rcode : UInt8) :
    quickErrorResponse data rcode = .diverge := by
  have hlen := h.long
  have hmasked := masked_count (data.getD 4 0) (data.getD 5 0)
  have hquestions : quickErrorQuestions data = .diverge := by
    unfold quickErrorQuestions
    rw [if_pos hlen, index_eq_getD (by omega), Outcome.ok_bind, index_eq_getD (by omega),
      Outcome.ok_bind, h.question]
    refine if_pos (UInt16.lt_iff_toNat_lt.mpr ?_)
    rw [hmasked]
    exact Nat.pos_of_ne_zero h.counted
  unfold quickErrorResponse
  rw [if_neg (by omega), readU16_of_le (by omega), Outcome.ok_bind, hquestions]
  rfl

/-- The handler decodes before anything else, so it never comes back. -/
theorem Looping.diverges {d : Datagram} (h : Looping d.data) {ρ σ ε : Type}
    (api : ResolverApi ρ σ ε) (course : Course ρ σ) (i : Nat) :
    handled api course d i = .diverge := by
  rw [handled, handleQuery, h.decode]
  rfl

end Looping

/-- The loop takes datagrams as long as it listens. -/
def receiveAll (s : UdpServer) : List Datagram → UdpServer
  | [] => s
  | d :: rest => if s.loop = .listening then receiveAll (handleRecv s d) rest else s

section Hang

variable {ρ σ ε : Type} {api : ResolverApi ρ σ ε} {course : Course ρ σ} {s s' : UdpServer}

/-- The server can receive them one after the other. -/
theorem receiveAll_steps (s : UdpServer) (ds : List Datagram) :
    UdpSteps api course s (receiveAll s ds) := by
  induction ds generalizing s with
  | nil => exact .refl
  | cons d rest ih =>
      unfold receiveAll
      split
      · rename_i hlistening
        exact .head (.recv s d hlistening) (ih _)
      · exact .refl

/-- A loop that hangs does so for good. -/
theorem hung_steps (hsteps : UdpSteps api course s s') (hhung : s.loop = .hung) :
    s'.loop = .hung ∧ s'.received = s.received := by
  induction hsteps with
  | refl => exact ⟨hhung, rfl⟩
  | tail _ hstep ih =>
      have hnot := ih.1
      cases hstep with
      | recv d hlistening => rw [hnot] at hlistening; cases hlistening
      | handle i d _ _ _ _ => exact ih
      | drop i _ => exact ih
      | refuse i d response _ _ => exact ih
      | stop hlistening => rw [hnot] at hlistening; cases hlistening

/-- Each permit can be taken by a datagram with a loop, and the next such datagram
after the last permit stops the receive loop. -/
theorem receiveAll_looping (h : s.Accounts) (hlistening : s.loop = .listening)
    {ds : List Datagram} (hloops : ∀ d ∈ ds, Looping d.data) (hmany : s.queries.free < ds.length) :
    (receiveAll s ds).loop = .hung ∧ ∃ stuck : List Nat, stuck.length = s.queries.free ∧
      stuck.Nodup ∧ ∀ i ∈ stuck, s.received.length ≤ i ∧ Stuck api course (receiveAll s ds) i := by
  induction ds generalizing s with
  | nil => exact absurd hmany (Nat.not_lt_zero _)
  | cons d rest ih =>
      obtain ⟨hd, hrest⟩ := List.forall_mem_cons.mp hloops
      rw [receiveAll, if_pos hlistening]
      by_cases hfree : s.queries.free = 0
      · have hhung : (handleRecv s d).loop = .hung := by
          unfold handleRecv
          dsimp only
          rw [if_neg (not_not.mpr hfree), hd.quickError]
        have hstopped : receiveAll (handleRecv s d) rest = handleRecv s d := by
          cases rest with
          | nil => rfl
          | cons d' rest' => rw [receiveAll, if_neg (by rw [hhung]; simp)]
        rw [hstopped]
        exact ⟨hhung, [], hfree.symm, List.nodup_nil, fun i hi => absurd hi List.not_mem_nil⟩
      · have htaken : handleRecv s d = { s with
            queries := s.queries.start s.received.length
            received := s.received ++ [d] } := by
          unfold handleRecv Admission.tryAcquire
          dsimp only
          rw [if_pos hfree, if_neg hfree]
        have haccounts := h.recv d
        have hnew : Stuck api course (handleRecv s d) s.received.length := by
          rw [htaken]
          refine ⟨List.mem_append_right _ (List.mem_singleton.mpr rfl), fun hout => ?_, d,
            by simp, hd.diverges api course _⟩
          obtain ⟨d', hd'⟩ := h.datagram (h.leaving.running _ hout)
          rw [List.getElem?_eq_none (Nat.le_refl _)] at hd'
          cases hd'
        have hstuck := hnew.steps haccounts (receiveAll_steps (handleRecv s d) rest)
        rw [htaken] at haccounts hstuck ⊢
        have hleft : (s.queries.start s.received.length).free < rest.length := by
          simp only [Admission.start]
          rw [List.length_cons] at hmany
          omega
        obtain ⟨hhung, stuck, hlength, hnodup, hall⟩ := ih haccounts hlistening hrest hleft
        have hlater : ∀ i ∈ stuck, s.received.length < i := by
          intro i hi
          have hle := (hall i hi).1
          rwa [List.length_append] at hle
        refine ⟨hhung, s.received.length :: stuck, ?_, ?_, List.forall_mem_cons.mpr ⟨?_, ?_⟩⟩
        · rw [List.length_cons, hlength]
          simp only [Admission.start]
          omega
        · exact List.nodup_cons.mpr ⟨fun hi => Nat.lt_irrefl _ (hlater _ hi), hnodup⟩
        · exact ⟨Nat.le_refl _, hstuck⟩
        · exact fun i hi => ⟨Nat.le_of_lt (hlater i hi), (hall i hi).2⟩

/-- **A few datagrams stop the UDP server.** Once the loop has received more datagrams
with a compression loop in the question than permits are free, it hangs: in every
continuation nothing more is received, and the permits these datagrams got are
never free again. From the start, 1025 datagrams do it; the threads below the tasks
are not part of the model, and a loop keeps one of them busy. -/
theorem looping_datagrams_hang (api : ResolverApi ρ σ ε) (course : Course ρ σ)
    (hrun : UdpSteps api course .start s) (hlistening : s.loop = .listening) {ds : List Datagram}
    (hloops : ∀ d ∈ ds, Looping d.data) (hmany : s.queries.free < ds.length) :
    UdpSteps api course s (receiveAll s ds) ∧ ∀ s', UdpSteps api course (receiveAll s ds) s' →
      s'.loop = .hung ∧ s'.received = (receiveAll s ds).received ∧
        s'.queries.free + s.queries.free ≤ maxConcurrentQueries := by
  have haccounts := hrun.accounts accounts_start
  have hthere : UdpSteps api course s (receiveAll s ds) := receiveAll_steps s ds
  have hlooping : (receiveAll s ds).loop = .hung ∧ ∃ stuck : List Nat,
      stuck.length = s.queries.free ∧ stuck.Nodup ∧
        ∀ i ∈ stuck, s.received.length ≤ i ∧ Stuck api course (receiveAll s ds) i :=
    receiveAll_looping haccounts hlistening hloops hmany
  obtain ⟨hhung, stuck, hlength, hnodup, hall⟩ := hlooping
  refine ⟨hthere, fun s' hsteps => ?_⟩
  obtain ⟨hstill, hreceived⟩ := hung_steps hsteps hhung
  have hafter := hthere.accounts haccounts
  have hkept : ∀ i ∈ stuck, i ∈ s'.queries.running :=
    fun i hi => ((hall i hi).2.steps hafter hsteps).running
  have hlen := (List.subperm_of_subset hnodup hkept).length_le
  have hconserved := (hsteps.accounts hafter).permits.conserved
  exact ⟨hstill, hreceived, by omega⟩

/-- A query whose name points to its id, and whose id reads as a pointer to itself. -/
def loopDatagram : Datagram :=
  ⟨⟨.v4 ⟨203, 0, 113, 9⟩, 4096⟩,
    [0xc0, 0, 0x01, 0x00, 0, 1, 0, 0, 0, 0, 0, 0, 0xc0, 0, 0, 1, 0, 1]⟩

theorem loopDatagram_looping : Looping loopDatagram.data := ⟨by decide, by decide, by decide⟩

theorem looping_datagrams_hang_start :
    UdpSteps emptyApi emptyCourse .start (receiveAll .start (List.replicate 1025 loopDatagram)) ∧
      ∀ s', UdpSteps emptyApi emptyCourse
          (receiveAll .start (List.replicate 1025 loopDatagram)) s' →
        s'.loop = .hung ∧
          s'.received = (receiveAll .start (List.replicate 1025 loopDatagram)).received ∧
          s'.queries.free + UdpServer.start.queries.free ≤ maxConcurrentQueries := by
  refine looping_datagrams_hang emptyApi emptyCourse .refl rfl (fun d hd => ?_) ?_
  · rw [List.eq_of_mem_replicate hd]
    exact loopDatagram_looping
  · rw [List.length_replicate]
    exact Nat.lt_succ_self 1024

end Hang

end FastDns.Server
