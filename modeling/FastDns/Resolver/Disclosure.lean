/-
What the queries of a call disclose.

A call of `resolve_recursive` is a run of rounds, and each round that is not the
last one is of one of five kinds (`Moves`): no reply, an error code, a referral
that is followed, the jump to the full name, or another try. `iteration_moves`
says that these are all, and with what reply each of them happens. What a round
does to the number of revealed labels is read off its kind, so the bounds on
whole runs are inductions over `Reaches` (`disclosure`).

A call that panics in a later round, or never comes back from one, has reached its
earlier rounds all the same, so what these wrote is seen here (`Reaches.confined`).

The query with RD=1 that completes the signatures of a direct answer is not a
round: it is sent for the full name, once that has been answered.
-/

import FastDns.Resolver.Bailiwick
import FastDns.Resolver.Minimisation

namespace FastDns.Resolver

open FastDns.Lib FastDns.Dns FastDns.Dnssec

/-! ### Kinds of rounds -/

/-- The ways in which a round leads to another one. -/
inductive RoundKind where
  | noReply
  | errorCode
  | referral
  | jump
  | again
deriving DecidableEq, Repr

section Rounds

variable (callee : Recursive) (cfg : Config) (name : Bytes) (rtype rclass : UInt16) (depth : Nat)
  (env : Env)

/-- The servers a referral leads to: from glue, from the cache, or resolved. -/
def referredServers (msg : Message) : Resolve (List IpAddr) := do
  let (known, toResolve) ← referralServers cfg msg.additionals (ofType 2 msg.authorities) [] []
  let resolved ← resolveNsNamesConcurrently callee cfg rclass depth toResolve
  storeNsAddrs resolved known

/-- A round with the search `s` that handles its reply in the state `st` and leads
to another search. -/
inductive Moves (s : Search) (st : St) : Option Message → RoundKind → Search → Prop where
  | noReply : Moves s st none .noReply s.rotate
  | errorCode {msg : Message} : msg.header.rcode ≠ 3 → msg.header.rcode ≠ 0 →
      Moves s st (some msg) .errorCode
        (if s.revealedLabels ≥ countLabels name then s.rotate else s)
  | referral {msg : Message} {first : ResourceRecord} {others : List ResourceRecord}
      {newServers : List IpAddr} {st' : St} : msg.header.rcode = 0 →
      ofType 2 msg.authorities = first :: others →
      referredServers callee cfg rclass depth msg env st = .ok (newServers, st') → newServers ≠ [] →
      Moves s st (some msg) .referral { s with
        nameservers := newServers
        zone := first.name
        revealedLabels := if s.revealedLabels < countLabels name then s.revealedLabels + 1
          else s.revealedLabels }
  | jump {msg : Message} : msg.header.rcode = 0 → ofType 2 msg.authorities = [] →
      ofType 6 msg.authorities = [] → s.revealedLabels < countLabels name →
      Moves s st (some msg) .jump { s with revealedLabels := countLabels name }.rotate
  | again {msg : Message} : msg.header.rcode = 0 → ofType 6 msg.authorities = [] →
      (ofType 2 msg.authorities = [] ∧ countLabels name ≤ s.revealedLabels ∨
        ofType 2 msg.authorities ≠ [] ∧
          ∃ st', referredServers callee cfg rclass depth msg env st = .ok ([], st')) →
      Moves s st (some msg) .again s.rotate

/-- A round once its name is known: the query, and what is made of the reply. -/
def askFor (s : Search) (minimizedName : Bytes) : Resolve (Search ⊕ Resolution) := do
  let id ← randomId
  let query ← call (buildQueryStatic minimizedName rtype rclass id cfg.dnssecOk false)
  match ← queryServersConcurrent query s.nameservers with
  | none => pure (.inl s.rotate)
  | some msg => do
      cacheResponse cfg s.zone msg
      handleReply callee cfg name rtype rclass depth (countLabels name) s minimizedName msg

/-- The state in which a reply is handled: it has been cached. -/
def St.afterReply (st : St) (zone : Bytes) : Option Message → St
  | none => st
  | some msg => St.cacheResponse cfg.enableIpv6 (env.clock st.tick) zone msg
      { st with tick := st.tick + 1 }

/-- A round from the search `s` and the state `st` that leads to `s'` and `st'`:
what was asked, what was replied, and of which kind it is. -/
structure RoundStep (s : Search) (st : St) (qname : Bytes) (reply : Option Message)
    (kind : RoundKind) (s' : Search) (st' : St) : Prop where
  runs : iteration callee cfg name rtype rclass depth (countLabels name) s env st =
    .ok (.inl s', st')
  asks : minimizeName name (countLabels name) s = .ok qname
  replied : ∃ query, buildQueryStatic qname rtype rclass (env.queryId st.tick) cfg.dnssecOk false =
      .ok query ∧ reply = env.reply (st.tick + 1) query s.nameservers ∧
    ∃ st₁, queryServersConcurrent query s.nameservers env { st with tick := st.tick + 1 } =
        .ok (reply, st₁) ∧
      Moves callee cfg name rclass depth env s (St.afterReply cfg env st₁ s.zone reply) reply kind s'

/-- The rounds of a loop, with their kinds. -/
inductive Reaches (s₀ : Search) (st₀ : St) : List RoundKind → Search → St → Prop where
  | start : Reaches s₀ st₀ [] s₀ st₀
  | round {kinds : List RoundKind} {s s' : Search} {st st' : St} {qname : Bytes}
      {reply : Option Message} {kind : RoundKind} : Reaches s₀ st₀ kinds s st →
      RoundStep callee cfg name rtype rclass depth env s st qname reply kind s' st' →
      Reaches s₀ st₀ (kinds ++ [kind]) s' st'

end Rounds

/-! ### One round -/

section Inversion

variable {self : Recursive} {cfg : Config} {name : Bytes} {rtype rclass : UInt16} {depth : Nat}
  {env : Env} {s s' : Search} {st st' : St} {qname : Bytes} {msg : Message}

/-- A search goes on after a reply without data only if there is no SOA record. -/
theorem negativeAnswer_inl {totalLabels : Nat}
    (h : negativeAnswer self cfg name rclass totalLabels s qname msg env st =
      .ok (.inl s', st')) :
    ofType 6 msg.authorities = [] ∧
      s' = { s with revealedLabels :=
        if s.revealedLabels < totalLabels ∧ (ofType 2 msg.authorities).isEmpty then totalLabels
        else s.revealedLabels }.rotate := by
  unfold negativeAnswer at h
  split at h
  · obtain ⟨_, _, _, hpure⟩ := Run.bind_eq_ok.mp h
    cases hpure
  · rename_i hsoa
    cases h
    exact ⟨by simpa using hsoa, rfl⟩

/-- A referral leads to another search: it is followed, or tried again. -/
theorem referral_inl (hcode : msg.header.rcode = 0)
    (h : referral self cfg name rclass depth (countLabels name) s qname msg env st =
      .ok (.inl s', st')) :
    ∃ kind, Moves self cfg name rclass depth env s st (some msg) kind s' := by
  unfold referral at h
  cases hns : ofType 2 msg.authorities with
  | nil =>
    rw [hns] at h
    obtain ⟨hsoa, rfl⟩ := negativeAnswer_inl h
    by_cases hshort : s.revealedLabels < countLabels name
    · refine ⟨.jump, ?_⟩
      rw [if_pos ⟨hshort, by rw [hns]; rfl⟩]
      exact .jump hcode hns hsoa hshort
    · refine ⟨.again, ?_⟩
      rw [if_neg fun hboth => hshort hboth.1]
      exact .again hcode hsoa (.inl ⟨hns, Nat.not_lt.mp hshort⟩)
  | cons first others =>
    rw [hns] at h
    obtain ⟨⟨known, toResolve⟩, st₁, hknown, h⟩ := Run.bind_eq_ok.mp h
    obtain ⟨resolved, st₂, hresolved, h⟩ := Run.bind_eq_ok.mp h
    obtain ⟨newServers, st₃, hnew, h⟩ := Run.bind_eq_ok.mp h
    have hservers : referredServers self cfg rclass depth msg env st = .ok (newServers, st₃) := by
      rw [referredServers, hns]
      exact Run.bind_eq_ok.mpr ⟨_, _, hknown, Run.bind_eq_ok.mpr ⟨_, _, hresolved, hnew⟩⟩
    split at h
    · rename_i hempty
      obtain ⟨hsoa, rfl⟩ := negativeAnswer_inl h
      have hsome : ¬ (s.revealedLabels < countLabels name ∧
          (ofType 2 msg.authorities).isEmpty = true) := by
        rw [hns]
        simp
      refine ⟨.again, ?_⟩
      rw [if_neg hsome]
      refine .again hcode hsoa (.inr ⟨by rw [hns]; simp, st₃, ?_⟩)
      rw [hservers, List.isEmpty_iff.mp hempty]
    · rename_i hne
      obtain ⟨_, st₄, _, hpure⟩ := Run.bind_eq_ok.mp h
      cases hpure
      exact ⟨.referral, .referral hcode hns hservers fun hnil => hne (List.isEmpty_iff.mpr hnil)⟩

/-- What a reply leads to, if it does not end the search. -/
theorem handleReply_inl
    (h : handleReply self cfg name rtype rclass depth (countLabels name) s qname msg env st =
      .ok (.inl s', st')) :
    ∃ kind, Moves self cfg name rclass depth env s st (some msg) kind s' := by
  unfold handleReply at h
  split at h
  · obtain ⟨_, _, _, hfail⟩ := Run.bind_eq_ok.mp h
    cases hfail
  rename_i hnx
  split at h
  · rename_i hcode
    cases h
    exact ⟨.errorCode, .errorCode hnx hcode⟩
  rename_i hcode
  unfold classifyReply at h
  split at h
  · obtain ⟨_, _, _, hpure⟩ := Run.bind_eq_ok.mp h
    cases hpure
  · cases halias : aliasOf name msg with
    | some found =>
        rw [halias] at h
        obtain ⟨_, _, _, h⟩ := Run.bind_eq_ok.mp h
        obtain ⟨_, _, _, hpure⟩ := Run.bind_eq_ok.mp h
        cases hpure
    | none =>
        rw [halias] at h
        exact referral_inl (not_not.mp hcode) h

theorem actOthers_apply (ops : List SharedOp) :
    actOthers ops env st = .ok ((), { st with shared := ops.foldl Shared.apply st.shared }) := by
  induction ops generalizing st with
  | nil => rfl
  | cons op ops ih => exact ih

/-- The reply is the one the world has for this query, and the caches are as the
other tasks leave them. -/
theorem queryServersConcurrent_reply {query : Bytes} {servers : List IpAddr}
    {reply : Option Message} (hservers : servers ≠ [])
    (h : queryServersConcurrent query servers env st = .ok (reply, st')) :
    reply = env.reply st.tick query servers ∧
      st'.shared = (env.others st.tick).foldl Shared.apply st.shared := by
  unfold queryServersConcurrent at h
  rw [if_neg (by simpa using hservers)] at h
  obtain ⟨_, _, hread, h⟩ := Run.bind_eq_ok.mp h
  cases hread
  obtain ⟨_, _, htick, h⟩ := Run.bind_eq_ok.mp h
  cases htick
  obtain ⟨_, _, hget, h⟩ := Run.bind_eq_ok.mp h
  cases hget
  obtain ⟨_, _, hact, h⟩ := Run.bind_eq_ok.mp h
  rw [actOthers_apply] at hact
  cases hact
  dsimp only at h
  split at h
  · cases h
  · cases h
    exact ⟨rfl, rfl⟩

/-- The name of a round decides what it asks for. -/
theorem iteration_eq_askFor (hname : minimizeName name (countLabels name) s = .ok qname) :
    iteration self cfg name rtype rclass depth (countLabels name) s =
      if s.nameservers.isEmpty then fail (.malformed "no nameservers to query")
      else askFor self cfg name rtype rclass depth s qname := by
  unfold iteration
  rw [hname]
  rfl

/-- **The kinds of rounds are all there are.** -/
theorem iteration_moves
    (h : iteration self cfg name rtype rclass depth (countLabels name) s env st =
      .ok (.inl s', st')) :
    ∃ qname reply kind,
      RoundStep self cfg name rtype rclass depth env s st qname reply kind s' st' := by
  have hruns := h
  unfold iteration at h
  split at h
  · cases h
  rename_i hservers
  obtain ⟨qname, st₁, hname, h⟩ := Run.bind_eq_ok.mp h
  obtain ⟨id, st₂, hid, h⟩ := Run.bind_eq_ok.mp h
  cases hid
  obtain ⟨query, st₃, hquery, h⟩ := Run.bind_eq_ok.mp h
  obtain ⟨reply, st₄, hreply, h⟩ := Run.bind_eq_ok.mp h
  obtain ⟨hasks, rfl⟩ := call_eq_ok hname
  obtain ⟨hbuilt, rfl⟩ := call_eq_ok hquery
  have hsent := (queryServersConcurrent_reply (by simpa using hservers) hreply).1
  cases reply with
  | none =>
      cases h
      exact ⟨qname, none, .noReply, hruns, hasks, query, hbuilt, hsent, st', hreply, .noReply⟩
  | some msg =>
      obtain ⟨_, st₅, hcached, h⟩ := Run.bind_eq_ok.mp h
      cases hcached
      obtain ⟨kind, hmoves⟩ := handleReply_inl h
      exact ⟨qname, some msg, kind, hruns, hasks, query, hbuilt, hsent, st₄, hreply, hmoves⟩

/-- Only a referral leads to another zone. -/
theorem Moves.zone_eq {reply : Option Message} {kind : RoundKind}
    (h : Moves self cfg name rclass depth env s st reply kind s') (hkind : kind ≠ .referral) :
    s'.zone = s.zone := by
  cases h with
  | noReply => exact rotate_zone s
  | errorCode =>
      split
      · exact rotate_zone s
      · rfl
  | referral => exact absurd rfl hkind
  | jump => exact rotate_zone _
  | again => exact rotate_zone s

/-- No round takes a label back. -/
theorem Moves.revealed_le {reply : Option Message} {kind : RoundKind}
    (h : Moves self cfg name rclass depth env s st reply kind s') :
    s.revealedLabels ≤ s'.revealedLabels := by
  cases h with
  | noReply => rw [rotate_revealedLabels]
  | errorCode =>
      split
      · rw [rotate_revealedLabels]
      · exact le_refl _
  | referral =>
      dsimp only
      split
      · exact Nat.le_succ _
      · exact le_refl _
  | jump _ _ _ hshort =>
      rw [rotate_revealedLabels]
      exact Nat.le_of_lt hshort
  | again => rw [rotate_revealedLabels]

/-- Only a referral and the jump reveal more, and a referral one label. -/
theorem Moves.revealed_bound {reply : Option Message} {kind : RoundKind}
    (h : Moves self cfg name rclass depth env s st reply kind s') (hjump : kind ≠ .jump) :
    s'.revealedLabels ≤ s.revealedLabels + [kind].count .referral := by
  cases h with
  | noReply =>
      rw [rotate_revealedLabels]
      exact Nat.le_add_right _ _
  | errorCode =>
      split
      · rw [rotate_revealedLabels]
        exact Nat.le_add_right _ _
      · exact Nat.le_add_right _ _
  | referral =>
      dsimp only
      rw [List.count_singleton_self]
      split
      · exact le_refl _
      · exact Nat.le_succ _
  | jump => exact absurd rfl hjump
  | again =>
      rw [rotate_revealedLabels]
      exact Nat.le_add_right _ _

/-- The jump is made on a reply that knows nothing of the shortened name. -/
theorem Moves.of_jump {reply : Option Message}
    (h : Moves self cfg name rclass depth env s st reply .jump s') :
    s.revealedLabels < countLabels name ∧ ∃ msg, reply = some msg ∧ msg.header.rcode = 0 ∧
      ofType 2 msg.authorities = [] ∧ ofType 6 msg.authorities = [] := by
  cases h with
  | jump hcode hns hsoa hshort => exact ⟨hshort, _, rfl, hcode, hns, hsoa⟩

/-- A referral that has servers is not tried again. -/
theorem not_again_of_referral {first : ResourceRecord} {others : List ResourceRecord}
    {newServers : List IpAddr} (hns : ofType 2 msg.authorities = first :: others)
    (hservers : referredServers self cfg rclass depth msg env st = .ok (newServers, st'))
    (hne : newServers ≠ [])
    (hagain : ofType 2 msg.authorities = [] ∧ countLabels name ≤ s.revealedLabels ∨
      ofType 2 msg.authorities ≠ [] ∧
        ∃ st', referredServers self cfg rclass depth msg env st = .ok ([], st')) : False := by
  rcases hagain with ⟨hnone, _⟩ | ⟨_, _, hempty⟩
  · rw [hns] at hnone
    cases hnone
  · rw [hservers] at hempty
    cases hempty
    exact hne rfl

/-- Neither is a reply without one, while labels are hidden. -/
theorem not_again_of_jump (hns : ofType 2 msg.authorities = [])
    (hshort : s.revealedLabels < countLabels name)
    (hagain : ofType 2 msg.authorities = [] ∧ countLabels name ≤ s.revealedLabels ∨
      ofType 2 msg.authorities ≠ [] ∧
        ∃ st', referredServers self cfg rclass depth msg env st = .ok ([], st')) : False := by
  rcases hagain with ⟨_, hall⟩ | ⟨hsome, _⟩
  · exact Nat.not_lt.mpr hall hshort
  · exact hsome hns

/-- The reply, and the state it is handled in, decide of which kind a round is. -/
theorem Moves.unique {reply : Option Message} {kind kind' : RoundKind} {s'' : Search}
    (h : Moves self cfg name rclass depth env s st reply kind s')
    (h' : Moves self cfg name rclass depth env s st reply kind' s'') :
    kind = kind' ∧ s' = s'' := by
  cases h with
  | noReply =>
      cases h'
      exact ⟨rfl, rfl⟩
  | errorCode _ hcode =>
      cases h' with
      | errorCode => exact ⟨rfl, rfl⟩
      | referral hzero => exact absurd hzero hcode
      | jump hzero => exact absurd hzero hcode
      | again hzero => exact absurd hzero hcode
  | referral hzero hns hservers hne =>
      cases h' with
      | errorCode _ hcode => exact absurd hzero hcode
      | referral _ hns' hservers' =>
          rw [hns] at hns'
          rw [hservers] at hservers'
          cases hns'
          cases hservers'
          exact ⟨rfl, rfl⟩
      | jump _ hnone =>
          rw [hns] at hnone
          cases hnone
      | again _ _ hagain => exact (not_again_of_referral hns hservers hne hagain).elim
  | jump hzero hnone _ hshort =>
      cases h' with
      | errorCode _ hcode => exact absurd hzero hcode
      | referral _ hns =>
          rw [hnone] at hns
          cases hns
      | jump => exact ⟨rfl, rfl⟩
      | again _ _ hagain => exact (not_again_of_jump hnone hshort hagain).elim
  | again hzero _ hagain =>
      cases h' with
      | errorCode _ hcode => exact absurd hzero hcode
      | referral _ hns hservers hne =>
          exact (not_again_of_referral hns hservers hne hagain).elim
      | jump _ hnone _ hshort => exact (not_again_of_jump hnone hshort hagain).elim
      | again => exact ⟨rfl, rfl⟩

/-- A round is of one of the kinds. -/
theorem RoundStep.moves {reply : Option Message} {kind : RoundKind}
    (h : RoundStep self cfg name rtype rclass depth env s st qname reply kind s' st') :
    ∃ st₁, Moves self cfg name rclass depth env s st₁ reply kind s' := by
  obtain ⟨_, _, _, _, _, hmoves⟩ := h.replied
  exact ⟨_, hmoves⟩

end Inversion

/-! ### Whole runs -/

section Runs

variable {self : Recursive} {cfg : Config} {name : Bytes} {rtype rclass : UInt16} {depth : Nat}
  {env : Env} {s s₀ : Search} {st st₀ : St} {kinds : List RoundKind}

/-- No label is taken back, over whole runs. -/
theorem Reaches.revealed_le (h : Reaches self cfg name rtype rclass depth env s₀ st₀ kinds s st) :
    s₀.revealedLabels ≤ s.revealedLabels := by
  induction h with
  | start => exact le_refl _
  | round _ hstep ih =>
      obtain ⟨_, hmoves⟩ := hstep.moves
      exact ih.trans hmoves.revealed_le

/-- Without a jump there is a referral for each further label. -/
theorem Reaches.revealed_bound
    (h : Reaches self cfg name rtype rclass depth env s₀ st₀ kinds s st)
    (hjump : .jump ∉ kinds) :
    s.revealedLabels ≤ s₀.revealedLabels + kinds.count .referral := by
  induction h with
  | start => exact Nat.le_add_right _ _
  | round _ hstep ih =>
      obtain ⟨_, hmoves⟩ := hstep.moves
      rw [List.mem_append, not_or, List.mem_singleton] at hjump
      have hbefore := ih hjump.1
      have hhere := hmoves.revealed_bound (Ne.symm hjump.2)
      rw [List.count_append]
      omega

/-- Rounds that are completed are steps, whatever comes of the call. -/
theorem Reaches.steps {fuel : Nat}
    (h : Reaches (resolveRecursive fuel) cfg name rtype rclass depth env s₀ st₀ kinds s st) :
    Steps st₀ st := by
  induction h with
  | start => exact .refl
  | round _ hstep ih => exact ih.trans ((iteration_steps _ _ _ _ _ _ _ _ env _).1 _ _ hstep.runs)

/-- **What a call has written is confined at every round it reaches**, also if it
panics in a later one or never ends. -/
theorem Reaches.confined {fuel : Nat}
    (h : Reaches (resolveRecursive fuel) cfg name rtype rclass depth env s₀ st₀ kinds s st) :
    ∀ e ∈ st.trace, e ∈ st₀.trace ∨ e.Confined :=
  h.steps.confined

/-- The loop goes through the searches that are reached. -/
theorem iterate_passes (h : Reaches self cfg name rtype rclass depth env s₀ st₀ kinds s st)
    (rounds : Nat) :
    iterate self cfg name rtype rclass depth (countLabels name) (rounds + kinds.length) s₀ env st₀ =
      iterate self cfg name rtype rclass depth (countLabels name) rounds s env st := by
  induction h generalizing rounds with
  | start => rfl
  | @round kinds s s' st st' _ _ kind _ hstep ih =>
      have hlength : rounds + (kinds ++ [kind]).length = rounds + 1 + kinds.length := by
        rw [List.length_append, List.length_singleton]
        omega
      rw [hlength, ih (rounds + 1), iterate, Run.bind_of_ok hstep.runs]

end Runs

/-- The rightmost labels. -/
def rightmost (n : Nat) (labels : List Bytes) : List Bytes := labels.drop (labels.length - n)

/-- The name of a round has the rightmost labels. -/
theorem minimizeName_wireName {labels : List Bytes} (hok : LabelsOk labels) (s : Search) :
    minimizeName (wireName labels) (countLabels (wireName labels)) s =
      .ok (wireName (rightmost (min s.revealedLabels labels.length) labels)) := by
  rw [countLabels_wireName hok, minimizeName, rightmost]
  split
  · rename_i hshort
    rw [namePrefix_wireName hok, Nat.min_eq_left (Nat.le_of_lt hshort)]
  · rename_i hall
    rw [Nat.min_eq_right (Nat.not_lt.mp hall), Nat.sub_self, List.drop_zero]

/-- **What a call discloses.** In every round that the loop reaches, the query is
for the rightmost labels of the name, as many as are revealed. Their number never
goes down. Without a cached delegation a minimising call has revealed no more
than one label and one for each referral, until it jumps to the full name; it
does so only on a reply with RCODE 0 to a shortened name, without NS and SOA
records. -/
theorem disclosure (labels : List Bytes) (hok : LabelsOk labels) (self : Recursive) (cfg : Config)
    (rtype rclass : UInt16) (depth : Nat) (qnameMinimize : Bool) (env : Env) (st₀ : St)
    (kinds : List RoundKind) (s : Search) (st : St)
    (hreached : Reaches self cfg (wireName labels) rtype rclass depth env
      (startSearch (wireName labels) qnameMinimize
        (findCachedDelegation (env.clock st₀.tick) (wireName labels) st₀.shared).1)
      (st₀.afterLookup env (wireName labels)) kinds s st) :
    -- The call gets here, and what happens next is a round.
    (∀ rounds, depth ≤ maxCnameDepth → rounds + kinds.length = maxIterations →
      resolveRecursiveBody self cfg (wireName labels) rtype rclass depth qnameMinimize env st₀ =
        iterate self cfg (wireName labels) rtype rclass depth (countLabels (wireName labels)) rounds
          s env st) ∧
    (∀ s' st', iteration self cfg (wireName labels) rtype rclass depth
        (countLabels (wireName labels)) s env st = .ok (.inl s', st') →
      ∃ qname reply kind, RoundStep self cfg (wireName labels) rtype rclass depth env s st qname
        reply kind s' st') ∧
    -- The name that is sent.
    iteration self cfg (wireName labels) rtype rclass depth (countLabels (wireName labels)) s =
      (if s.nameservers.isEmpty then fail (.malformed "no nameservers to query")
      else askFor self cfg (wireName labels) rtype rclass depth s
        (wireName (rightmost (min s.revealedLabels labels.length) labels))) ∧
    -- The number of labels.
    (∀ kinds' s' st', Reaches self cfg (wireName labels) rtype rclass depth env s st kinds' s' st' →
      s.revealedLabels ≤ s'.revealedLabels) ∧
    (qnameMinimize = true →
      (findCachedDelegation (env.clock st₀.tick) (wireName labels) st₀.shared).1 = none →
      .jump ∉ kinds → s.revealedLabels ≤ 1 + kinds.count .referral) ∧
    -- The jump.
    ∀ qname reply s' st', RoundStep self cfg (wireName labels) rtype rclass depth env s st qname
        reply .jump s' st' →
      s.revealedLabels < labels.length ∧ ∃ msg, reply = some msg ∧ msg.header.rcode = 0 ∧
        ofType 2 msg.authorities = [] ∧ ofType 6 msg.authorities = [] := by
  refine ⟨?_, fun s' st' => iteration_moves, iteration_eq_askFor (minimizeName_wireName hok s),
    fun kinds' s' st' hlater => hlater.revealed_le, ?_, ?_⟩
  · intro rounds hdepth hrounds
    rw [resolveRecursiveBody_eq hdepth, ← hrounds]
    exact iterate_passes hreached rounds
  · intro hminimize hmiss hnojump
    have hbound := hreached.revealed_bound hnojump
    rw [hmiss, hminimize] at hbound
    exact hbound
  · intro qname reply s' st' hstep
    obtain ⟨_, hmoves⟩ := hstep.moves
    have hjump := hmoves.of_jump
    rw [countLabels_wireName hok] at hjump
    exact hjump

/-- The labels of `a.test`. -/
def testHostLabels : List Bytes := [[0x61], [0x74, 0x65, 0x73, 0x74]]

/-- The first round of `a.test` follows the referral of the root to `test`. -/
theorem referral_reached :
    ∃ s st, Reaches (resolveRecursive 0) ⟨false, false⟩ (wireName testHostLabels) 1 1 0
      foreignGlueEnv rootSearch ((St.initial 10).afterLookup foreignGlueEnv
        (wireName testHostLabels)) [.referral] s st ∧ s.zone = testZone := by
  have hround : (iteration (resolveRecursive 0) ⟨false, false⟩ (wireName testHostLabels) 1 1 0
      (countLabels (wireName testHostLabels)) rootSearch foreignGlueEnv
      ((St.initial 10).afterLookup foreignGlueEnv (wireName testHostLabels))).toOption.map
        (fun end_ => end_.1.getLeft?.map Search.zone) = some (some testZone) := by
    decide +kernel
  obtain ⟨⟨next, st⟩, hrun, hleft⟩ := Option.map_eq_some_iff.mp hround
  obtain ⟨s, hs, hzone⟩ := Option.map_eq_some_iff.mp hleft
  obtain rfl : next = .inl s := Sum.getLeft?_eq_some_iff.mp hs
  obtain ⟨qname, reply, kind, hstep⟩ := iteration_moves (Outcome.toOption_eq_some.mp hrun)
  have hkind : kind = .referral := by
    by_contra hother
    obtain ⟨_, hmoves⟩ := hstep.moves
    have hsame := hmoves.zone_eq hother
    rw [hzone] at hsame
    exact absurd hsame (by decide)
  subst hkind
  exact ⟨s, st, Reaches.start.round hstep, hzone⟩

/-- After the referral the query is for `a.test`, and the bound on the labels is met. -/
theorem disclosure_after_referral :
    ∃ s st, Reaches (resolveRecursive 0) ⟨false, false⟩ (wireName testHostLabels) 1 1 0
        foreignGlueEnv rootSearch ((St.initial 10).afterLookup foreignGlueEnv
          (wireName testHostLabels)) [.referral] s st ∧
      (∃ n ≤ 2, iteration (resolveRecursive 0) ⟨false, false⟩ (wireName testHostLabels) 1 1 0
          (countLabels (wireName testHostLabels)) s =
        if s.nameservers.isEmpty then fail (.malformed "no nameservers to query")
        else askFor (resolveRecursive 0) ⟨false, false⟩ (wireName testHostLabels) 1 1 0 s
          (wireName (rightmost (min n 2) testHostLabels))) := by
  obtain ⟨s, st, hreached, _⟩ := referral_reached
  obtain ⟨_, _, hasks, _, hbound, _⟩ := disclosure testHostLabels (by simp [LabelsOk, testHostLabels])
    (resolveRecursive 0) ⟨false, false⟩ 1 1 0 true foreignGlueEnv (.initial 10) [.referral] s st
    hreached
  exact ⟨s, st, hreached, s.revealedLabels, hbound rfl rfl (by decide), hasks⟩

end FastDns.Resolver
