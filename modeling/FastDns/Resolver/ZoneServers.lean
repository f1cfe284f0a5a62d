/-
The servers of a zone, and where their addresses come from.

`get_nameservers_for_zone` fills one list from four places. `originsForZone` is
that list with the place beside each address (`getNameserversForZone_origins`).
Two of the places are wrong for some states and replies: the nameserver cache has
the addresses of hosts and is asked for the zone as if it were one, and the NS
records of a referral are used whoever their owner is, so those of a parent pass
for the zone's. `zoneServers_own_iff` says when this does no harm. Each address is
in the place it is said to come from (`originsForZone_gives`).
-/

import FastDns.Resolver.Disclosure
import FastDns.Resolver.LongestMatch

namespace FastDns.Resolver

open FastDns.Lib FastDns.Dns FastDns.Dnssec

/-! ### Origins -/

/-- Where an address is taken from. -/
inductive Origin where
  /-- The servers stored for a suffix of the zone. -/
  | delegation (suffix : Bytes)
  /-- The addresses of the host with the name of the zone. -/
  | hostEntry
  | rootHint
  /-- The host that an NS record of this owner names. -/
  | nameserver (owner host : Bytes)
deriving DecidableEq, Repr

def Origin.mark (origin : Origin) (ips : List IpAddr) : List (IpAddr × Origin) :=
  ips.map fun ip => (ip, origin)

/-- The NS records of a referral that name a host, with their owners. -/
def nsHosts (records : List ResourceRecord) : List (Bytes × Bytes) :=
  records.filterMap fun r =>
    match r.parsed with
    | some (.ns host) => some (r.name, host)
    | _ => none

/-- The addresses that are kept for a host. -/
def cachedAddrs (nsCache : Lru Bytes (List IpAddr)) (host : Bytes) : List IpAddr :=
  (nsCache.get? host).getD []

/-- What the loop over the NS records of a referral finds. -/
def referralOrigins (additionals : List ResourceRecord) (nsCache : Lru Bytes (List IpAddr)) :
    List (Bytes × Bytes) → List (IpAddr × Origin) → List (IpAddr × Origin)
  | [], found => found
  | (owner, host) :: rest, found =>
      let found := found ++ (Origin.nameserver owner host).mark (glueFor host additionals)
      if found.isEmpty then
        referralOrigins additionals nsCache rest
          ((Origin.nameserver owner host).mark (cachedAddrs nsCache host))
      else referralOrigins additionals nsCache rest found

section Zone

variable (zone : Bytes) (env : Env) (s : St)

/-- The reply of the root servers to the query for the zone's NS records. -/
def referralReply : Option Message :=
  match buildQueryStatic zone 2 1 (env.queryId (s.tick + 1)) false false with
  | .ok query => env.reply (s.tick + 2) query initialRootAddrs
  | _ => none

/-- The nameserver cache when that reply is there: other tasks have used it in the
meantime. -/
def nsCacheAtReply : Lru Bytes (List IpAddr) :=
  ((env.others (s.tick + 2)).foldl Shared.apply
    ((s.afterLookup env zone).shared.apply (.nsGet zone))).nsCache

/-- The addresses that `get_nameservers_for_zone` returns, with their origins. -/
def originsForZone : List (IpAddr × Origin) :=
  match (findCachedDelegation (env.clock s.tick) zone s.shared).1 with
  | some (servers, suffix) => (Origin.delegation suffix).mark servers
  | none =>
      match s.shared.nsCache.get? zone with
      | some ips => Origin.hostEntry.mark ips
      | none =>
          if isRootZone zone then Origin.rootHint.mark initialRootAddrs
          else
            match referralReply zone env s with
            | none => []
            | some msg => referralOrigins msg.additionals (nsCacheAtReply zone env s)
                (nsHosts (ofType 2 msg.authorities)) []

/-- The root servers are asked: nothing is known about the zone, and it is not the
root. -/
def AsksRoot : Prop :=
  (findCachedDelegation (env.clock s.tick) zone s.shared).1 = none ∧
    s.shared.nsCache.get? zone = none ∧ isRootZone zone = false

/-- The address is there, in the place it is said to come from. -/
def Origin.Gives (ip : IpAddr) : Origin → Prop
  | .delegation suffix => ∃ servers,
      (findCachedDelegation (env.clock s.tick) zone s.shared).1 = some (servers, suffix) ∧
        ip ∈ servers
  | .hostEntry => ip ∈ cachedAddrs s.shared.nsCache zone
  | .rootHint => ip ∈ initialRootAddrs
  | .nameserver owner host => AsksRoot zone env s ∧
      ∃ msg, referralReply zone env s = some msg ∧
        (owner, host) ∈ nsHosts (ofType 2 msg.authorities) ∧
        (ip ∈ glueFor host msg.additionals ∨ ip ∈ cachedAddrs (nsCacheAtReply zone env s) host)

/-- The place has servers of this zone: a delegation of a suffix, the root hints
if it is the root, and the hosts of its own NS records. -/
def Origin.OfZone : Origin → Prop
  | .delegation suffix => suffix <:+ zone
  | .hostEntry => False
  | .rootHint => isRootZone zone = true
  | .nameserver owner _ => domainNamesEqual owner zone = true

/-- Some place that has servers of this zone gives the address. -/
def ServerOfZone (ip : IpAddr) : Prop :=
  ∃ origin : Origin, origin.Gives zone env s ip ∧ origin.OfZone zone

end Zone

/-! ### The loop over NS records -/

section Referral

variable {additionals : List ResourceRecord} {nsCache : Lru Bytes (List IpAddr)}
  {hosts : List (Bytes × Bytes)} {found : List (IpAddr × Origin)}

/-- There is glue for the host, or an address of it is kept. -/
def hasAddr (additionals : List ResourceRecord) (nsCache : Lru Bytes (List IpAddr))
    (ns : Bytes × Bytes) : Bool :=
  !(glueFor ns.2 additionals).isEmpty || !(cachedAddrs nsCache ns.2).isEmpty

theorem Origin.forall_mark {P : IpAddr × Origin → Prop} {origin : Origin} {ips : List IpAddr} :
    (∀ x ∈ origin.mark ips, P x) ↔ ∀ ip ∈ ips, P (ip, origin) := List.forall_mem_map

theorem Origin.mark_eq_nil {origin : Origin} {ips : List IpAddr} :
    origin.mark ips = [] ↔ ips = [] := List.map_eq_nil_iff

/-- Every host with glue contributes it, and of those without the first one with an
address that is kept contributes that, if nothing was found before. -/
theorem forall_referralOrigins {P : IpAddr × Origin → Prop} :
    (∀ x ∈ referralOrigins additionals nsCache hosts found, P x) ↔
      (∀ x ∈ found, P x) ∧
      (∀ ns ∈ hosts, ∀ ip ∈ glueFor ns.2 additionals, P (ip, .nameserver ns.1 ns.2)) ∧
      (found = [] → ∀ ns, hosts.find? (hasAddr additionals nsCache) = some ns →
        glueFor ns.2 additionals = [] →
        ∀ ip ∈ cachedAddrs nsCache ns.2, P (ip, .nameserver ns.1 ns.2)) := by
  induction hosts generalizing found with
  | nil => simp [referralOrigins]
  | cons ns hosts ih =>
      obtain ⟨owner, host⟩ := ns
      rw [referralOrigins, List.forall_mem_cons, List.find?_cons]
      dsimp only
      by_cases hglue : glueFor host additionals = []
      · -- Without glue, what is kept counts only if the list is still empty.
        rw [hglue, show (Origin.nameserver owner host).mark [] = [] from rfl, List.append_nil]
        by_cases hfound : found = []
        · rw [if_pos (by simpa using hfound), ih, Origin.forall_mark, Origin.mark_eq_nil, hfound]
          by_cases hkept : cachedAddrs nsCache host = []
          · have hno : hasAddr additionals nsCache (owner, host) = false := by
              simp [hasAddr, hglue, hkept]
            simp [hkept, hno]
          · have hyes : hasAddr additionals nsCache (owner, host) = true := by
              simp [hasAddr, hkept]
            simp only [hyes, Option.some.injEq, forall_eq']
            constructor
            · rintro ⟨hown, hrest, -⟩
              exact ⟨by simp, ⟨by simp, hrest⟩, fun _ _ => hown⟩
            · rintro ⟨-, ⟨-, hrest⟩, hown⟩
              exact ⟨hown trivial hglue, hrest, fun hnil => absurd hnil hkept⟩
        · rw [if_neg (by simpa using hfound), ih]
          simp [hfound]
      · have hyes : hasAddr additionals nsCache (owner, host) = true := by
          simp [hasAddr, hglue]
        have hne : found ++ (Origin.nameserver owner host).mark (glueFor host additionals) ≠ [] :=
          fun h => hglue (Origin.mark_eq_nil.mp (List.append_eq_nil_iff.mp h).2)
        rw [if_neg (by simpa using hne), ih, List.forall_mem_append, Origin.forall_mark]
        simp only [hyes, Option.some.injEq, forall_eq']
        constructor
        · rintro ⟨⟨hold, hown⟩, hrest, -⟩
          exact ⟨hold, ⟨hown, hrest⟩, fun _ hnone => absurd hnone hglue⟩
        · rintro ⟨hold, ⟨hown, hrest⟩, -⟩
          exact ⟨⟨hold, hown⟩, hrest, fun hnil => absurd hnil hne⟩

/-- What is found in a referral are addresses of its hosts. -/
theorem mem_referralOrigins {x : IpAddr × Origin}
    (h : x ∈ referralOrigins additionals nsCache hosts []) :
    ∃ ns ∈ hosts, x.2 = .nameserver ns.1 ns.2 ∧
      (x.1 ∈ glueFor ns.2 additionals ∨ x.1 ∈ cachedAddrs nsCache ns.2) := by
  have hall : ∀ x ∈ referralOrigins additionals nsCache hosts [], ∃ ns ∈ hosts,
      x.2 = .nameserver ns.1 ns.2 ∧
        (x.1 ∈ glueFor ns.2 additionals ∨ x.1 ∈ cachedAddrs nsCache ns.2) := by
    refine forall_referralOrigins.mpr ⟨?_, ?_, ?_⟩
    · intro x hx
      cases hx
    · intro ns hns ip hip
      exact ⟨ns, hns, rfl, .inl hip⟩
    · intro _ ns hfirst _ ip hip
      exact ⟨ns, List.mem_of_find?_eq_some hfirst, rfl, .inr hip⟩
  exact hall x h

end Referral

/-! ### The origins are those of the code -/

section Run

variable {zone : Bytes} {env : Env} {s s' : St} {ips : List IpAddr}

/-- Marking an address does not change it. -/
theorem Origin.map_fst_mark (origin : Origin) (addrs : List IpAddr) :
    (origin.mark addrs).map Prod.fst = addrs := by
  rw [Origin.mark, List.map_map]
  exact List.map_id addrs

/-- One NS record: its glue, and else the cached addresses. -/
theorem collectNameservers_host {additionals records : List ResourceRecord} {ns : ResourceRecord}
    {host : Bytes} (hparsed : ns.parsed = some (.ns host)) :
    collectNameservers additionals (ns :: records) ips =
      if (ips ++ glueFor host additionals).isEmpty then do
        let cached ← nsLookup host
        collectNameservers additionals records (ips ++ glueFor host additionals ++ cached.getD [])
      else collectNameservers additionals records (ips ++ glueFor host additionals) := by
  rw [collectNameservers, hparsed]

/-- A record that names no host is skipped. -/
theorem collectNameservers_other {additionals records : List ResourceRecord} {ns : ResourceRecord}
    (hother : ∀ host, ns.parsed ≠ some (.ns host)) :
    collectNameservers additionals (ns :: records) ips =
      collectNameservers additionals records ips := by
  unfold collectNameservers
  split
  · rename_i host hparsed
    exact absurd hparsed (hother host)
  · cases records <;> rfl

theorem nsHosts_host {records : List ResourceRecord} {ns : ResourceRecord} {host : Bytes}
    (hparsed : ns.parsed = some (.ns host)) :
    nsHosts (ns :: records) = (ns.name, host) :: nsHosts records := by
  rw [nsHosts, List.filterMap_cons, hparsed]
  rfl

theorem nsHosts_other {records : List ResourceRecord} {ns : ResourceRecord}
    (hother : ∀ host, ns.parsed ≠ some (.ns host)) : nsHosts (ns :: records) = nsHosts records := by
  refine List.filterMap_cons_none ?_
  split
  · rename_i host hparsed
    exact absurd hparsed (hother host)
  · rfl

/-- Lookups do not change what is kept, so all of them see the same addresses. -/
theorem collectNameservers_origins {additionals records : List ResourceRecord}
    {nsCache : Lru Bytes (List IpAddr)} {found : List (IpAddr × Origin)}
    (hkept : ∀ host, s.shared.nsCache.get? host = nsCache.get? host)
    (h : collectNameservers additionals records (found.map Prod.fst) env s = .ok (ips, s')) :
    ips = (referralOrigins additionals nsCache (nsHosts records) found).map Prod.fst := by
  induction records generalizing found s with
  | nil =>
      cases h
      rfl
  | cons ns records ih =>
      by_cases hhost : ∃ host, ns.parsed = some (.ns host)
      · obtain ⟨host, hparsed⟩ := hhost
        have hglue : found.map Prod.fst ++ glueFor host additionals =
            (found ++ (Origin.nameserver ns.name host).mark (glueFor host additionals)).map
              Prod.fst := by
          rw [List.map_append, Origin.map_fst_mark]
        rw [collectNameservers_host hparsed, hglue, List.isEmpty_map] at h
        rw [nsHosts_host hparsed, referralOrigins]
        split at h
        · rename_i hempty
          obtain ⟨cached, s₁, hlookup, h⟩ := Run.bind_eq_ok.mp h
          cases hlookup
          rw [if_pos hempty]
          rw [List.isEmpty_iff.mp hempty, List.map_nil, List.nil_append, hkept host,
            ← Origin.map_fst_mark (.nameserver ns.name host) ((nsCache.get? host).getD [])] at h
          exact ih (fun other => Lru.get?_touch.trans (hkept other)) h
        · rename_i hfound
          rw [if_neg hfound]
          exact ih hkept h
      · have hother : ∀ host, ns.parsed ≠ some (.ns host) := not_exists.mp hhost
        rw [collectNameservers_other hother] at h
        rw [nsHosts_other hother]
        exact ih hkept h

/-- Where nothing is known, the addresses are collected from the reply of the root
servers, if there is one. -/
theorem getNameserversForZone_asks (hasks : AsksRoot zone env s)
    (h : getNameserversForZone zone env s = .ok (ips, s')) :
    (referralReply zone env s = none ∧ ips = []) ∨
      ∃ msg s₁, referralReply zone env s = some msg ∧
        s₁.shared.nsCache = nsCacheAtReply zone env s ∧
        collectNameservers msg.additionals (ofType 2 msg.authorities) [] env s₁ = .ok (ips, s') := by
  obtain ⟨hfind, hcached, hroot⟩ := hasks
  rw [getNameserversForZone_miss hfind hcached, if_neg (by rw [hroot]; decide)] at h
  obtain ⟨id, s₁, hid, h⟩ := Run.bind_eq_ok.mp h
  cases hid
  obtain ⟨query, s₂, hquery, h⟩ := Run.bind_eq_ok.mp h
  replace hquery : attempt (call (buildQueryStatic zone 2 1 (env.queryId (s.tick + 1)) false false))
      env { s.afterLookups env zone with tick := s.tick + 2 } = .ok (query, s₂) := hquery
  unfold referralReply
  cases hbuilt : buildQueryStatic zone 2 1 (env.queryId (s.tick + 1)) false false with
  | ok bytes =>
      rw [hbuilt] at hquery
      cases hquery
      obtain ⟨reply, s₃, hreply, h⟩ := Run.bind_eq_ok.mp h
      obtain ⟨hsent, hshared⟩ := queryServersConcurrent_reply (by decide) hreply
      cases reply with
      | none =>
          cases h
          exact .inl ⟨hsent.symm, rfl⟩
      | some msg => exact .inr ⟨msg, s₃, hsent.symm, congrArg Shared.nsCache hshared, h⟩
  | err e =>
      rw [hbuilt] at hquery
      cases hquery
      cases h
      exact .inl ⟨rfl, rfl⟩
  | panic =>
      rw [hbuilt] at hquery
      cases hquery
  | diverge =>
      rw [hbuilt] at hquery
      cases hquery

/-- **What is returned are the addresses of `originsForZone`.** -/
theorem getNameserversForZone_origins
    (h : getNameserversForZone zone env s = .ok (ips, s')) :
    ips = (originsForZone zone env s).map Prod.fst := by
  unfold originsForZone
  cases hfind : (findCachedDelegation (env.clock s.tick) zone s.shared).1 with
  | some entry =>
      obtain ⟨servers, suffix⟩ := entry
      rw [getNameserversForZone_delegation hfind] at h
      cases h
      exact (Origin.map_fst_mark _ _).symm
  | none =>
      cases hcached : s.shared.nsCache.get? zone with
      | some addrs =>
          rw [getNameserversForZone_cached hfind hcached] at h
          cases h
          exact (Origin.map_fst_mark _ _).symm
      | none =>
          dsimp only
          cases hroot : isRootZone zone with
          | true =>
              rw [getNameserversForZone_miss hfind hcached, if_pos hroot] at h
              cases h
              exact (Origin.map_fst_mark _ _).symm
          | false =>
              rw [if_neg (by decide)]
              rcases getNameserversForZone_asks ⟨hfind, hcached, hroot⟩ h with
                ⟨hnone, rfl⟩ | ⟨msg, s₁, hreply, hns, hcollected⟩
              · rw [hnone]
                rfl
              · rw [hreply]
                have hkept : ∀ host, s₁.shared.nsCache.get? host =
                    (nsCacheAtReply zone env s).get? host := fun host => by rw [hns]
                exact collectNameservers_origins hkept hcollected

end Run

/-! ### Which servers are the zone's own -/

/-- An address of a host that an NS record of the zone names. -/
def OwnAddr (zone : Bytes) (nsCache : Lru Bytes (List IpAddr)) (msg : Message) (ip : IpAddr) :
    Prop :=
  ∃ ns ∈ nsHosts (ofType 2 msg.authorities), domainNamesEqual ns.1 zone = true ∧
    (ip ∈ glueFor ns.2 msg.additionals ∨ ip ∈ cachedAddrs nsCache ns.2)

/-- NS records of other owners add nothing to the addresses of the zone's own: not
with their glue, and not if the first host that has an address at all is theirs and
has no glue. -/
structure OwnReferral (zone : Bytes) (nsCache : Lru Bytes (List IpAddr)) (msg : Message) : Prop where
  glue : ∀ ns ∈ nsHosts (ofType 2 msg.authorities), domainNamesEqual ns.1 zone = false →
    ∀ ip ∈ glueFor ns.2 msg.additionals, OwnAddr zone nsCache msg ip
  first : ∀ ns, (nsHosts (ofType 2 msg.authorities)).find? (hasAddr msg.additionals nsCache) =
      some ns → domainNamesEqual ns.1 zone = false → glueFor ns.2 msg.additionals = [] →
    ∀ ip ∈ cachedAddrs nsCache ns.2, OwnAddr zone nsCache msg ip

/-- NS records of the zone alone. -/
theorem OwnReferral.of_owners {zone : Bytes} {nsCache : Lru Bytes (List IpAddr)} {msg : Message}
    (h : ∀ ns ∈ nsHosts (ofType 2 msg.authorities), domainNamesEqual ns.1 zone = true) :
    OwnReferral zone nsCache msg where
  glue ns hns hother := by
    rw [h ns hns] at hother
    cases hother
  first ns hfirst hother := by
    rw [h ns (List.mem_of_find?_eq_some hfirst)] at hother
    cases hother

/-- A delegation is known; or the zone's name is that of a host, and its addresses
are root hints of the root; or it is not, and either the zone is the root or the
reply, if there is one, is about the zone. -/
def OwnServersOnly (zone : Bytes) (env : Env) (s : St) : Prop :=
  (findCachedDelegation (env.clock s.tick) zone s.shared).1 ≠ none ∨
    (∃ ips, s.shared.nsCache.get? zone = some ips ∧
      ∀ ip ∈ ips, ip ∈ initialRootAddrs ∧ isRootZone zone = true) ∨
    s.shared.nsCache.get? zone = none ∧
      (isRootZone zone = true ∨ ∀ msg, referralReply zone env s = some msg →
        OwnReferral zone (nsCacheAtReply zone env s) msg)

section Own

variable {zone : Bytes} {env : Env} {s : St} {ip : IpAddr}

/-- Where no delegation is known and the root is not asked, the servers of a zone
are the root hints. -/
theorem serverOfZone_of_not_asks
    (hfind : (findCachedDelegation (env.clock s.tick) zone s.shared).1 = none)
    (hasks : ¬ AsksRoot zone env s) :
    ServerOfZone zone env s ip ↔ ip ∈ initialRootAddrs ∧ isRootZone zone = true := by
  constructor
  · rintro ⟨origin, hgives, hzone⟩
    cases origin with
    | delegation suffix =>
        obtain ⟨servers, hsome, _⟩ := hgives
        rw [hfind] at hsome
        cases hsome
    | hostEntry => cases hzone
    | rootHint => exact ⟨hgives, hzone⟩
    | nameserver owner host => exact absurd hgives.1 hasks
  · rintro ⟨hhint, hroot⟩
    exact ⟨.rootHint, hhint, hroot⟩

/-- Where the root is asked, they are the addresses of the hosts of its own NS
records. -/
theorem serverOfZone_of_reply {msg : Message} (hasks : AsksRoot zone env s)
    (hreply : referralReply zone env s = some msg) :
    ServerOfZone zone env s ip ↔ OwnAddr zone (nsCacheAtReply zone env s) msg ip := by
  constructor
  · rintro ⟨origin, hgives, hzone⟩
    cases origin with
    | delegation suffix =>
        obtain ⟨servers, hsome, _⟩ := hgives
        rw [hasks.1] at hsome
        cases hsome
    | hostEntry => cases hzone
    | rootHint =>
        rw [Origin.OfZone, hasks.2.2] at hzone
        cases hzone
    | nameserver owner host =>
        obtain ⟨_, msg', hmsg, hhost, haddr⟩ := hgives
        obtain rfl := Option.some.inj (hreply.symm.trans hmsg)
        exact ⟨(owner, host), hhost, hzone, haddr⟩
  · rintro ⟨⟨owner, host⟩, hhost, hzone, haddr⟩
    exact ⟨.nameserver owner host, ⟨hasks, msg, hreply, hhost, haddr⟩, hzone⟩

/-- The origins are true. -/
theorem originsForZone_gives : ∀ x ∈ originsForZone zone env s, x.2.Gives zone env s x.1 := by
  intro x hx
  unfold originsForZone at hx
  split at hx
  · rename_i servers suffix hfind
    obtain ⟨ip, hip, rfl⟩ := List.mem_map.mp hx
    exact ⟨servers, hfind, hip⟩
  rename_i hfind
  split at hx
  · rename_i addrs hcached
    obtain ⟨ip, hip, rfl⟩ := List.mem_map.mp hx
    rw [Origin.Gives, cachedAddrs, hcached]
    exact hip
  rename_i hcached
  split at hx
  · obtain ⟨ip, hip, rfl⟩ := List.mem_map.mp hx
    exact hip
  rename_i hroot
  split at hx
  · cases hx
  rename_i msg hreply
  obtain ⟨ns, hns, horigin, haddr⟩ := mem_referralOrigins hx
  rw [horigin]
  exact ⟨⟨hfind, hcached, Bool.not_eq_true _ ▸ hroot⟩, msg, hreply, hns, haddr⟩

/-- Addresses found by the NS records of a reply are the zone's own if those of
other owners add nothing. -/
theorem referralOrigins_own {nsCache : Lru Bytes (List IpAddr)} {msg : Message} :
    (∀ x ∈ referralOrigins msg.additionals nsCache (nsHosts (ofType 2 msg.authorities)) [],
      OwnAddr zone nsCache msg x.1) ↔ OwnReferral zone nsCache msg := by
  rw [forall_referralOrigins]
  constructor
  · rintro ⟨-, hglue, hfirst⟩
    exact ⟨fun ns hns _ => hglue ns hns, fun ns hns _ => hfirst rfl ns hns⟩
  · intro hown
    refine ⟨fun _ hx => absurd hx List.not_mem_nil, ?_, ?_⟩
    · intro ns hns ip hip
      cases howner : domainNamesEqual ns.1 zone with
      | true => exact ⟨ns, hns, howner, .inl hip⟩
      | false => exact hown.glue ns hns howner ip hip
    · intro _ ns hfirst hglue ip hip
      cases howner : domainNamesEqual ns.1 zone with
      | true => exact ⟨ns, List.mem_of_find?_eq_some hfirst, howner, .inr hip⟩
      | false => exact hown.first ns hfirst howner hglue ip hip

/-- When only the zone's own servers are found. -/
theorem originsForZone_own :
    (∀ x ∈ originsForZone zone env s, ServerOfZone zone env s x.1) ↔
      OwnServersOnly zone env s := by
  unfold originsForZone OwnServersOnly
  split
  · rename_i servers suffix hfind
    have hsuffix : suffix <:+ zone := (findDelegationLoop_some hfind).1
    rw [Origin.forall_mark, hfind]
    refine ⟨fun _ => .inl (by simp), fun _ ip hip => ?_⟩
    exact ⟨.delegation suffix, ⟨servers, hfind, hip⟩, hsuffix⟩
  rename_i hfind
  rw [hfind]
  split
  · rename_i addrs hcached
    have hasks : ¬ AsksRoot zone env s := by
      rintro ⟨_, hnone, _⟩
      rw [hcached] at hnone
      cases hnone
    rw [Origin.forall_mark, hcached]
    simp [serverOfZone_of_not_asks hfind hasks]
  rename_i hcached
  rw [hcached]
  split
  · rename_i hroot
    have hasks : ¬ AsksRoot zone env s := by
      rintro ⟨_, _, hother⟩
      rw [hroot] at hother
      cases hother
    rw [Origin.forall_mark]
    simp [serverOfZone_of_not_asks hfind hasks, hroot]
  rename_i hroot
  have hasks : AsksRoot zone env s := ⟨hfind, hcached, Bool.not_eq_true _ ▸ hroot⟩
  split
  · rename_i hnone
    simp [hnone]
  rename_i msg hreply
  simp only [serverOfZone_of_reply hasks hreply, referralOrigins_own]
  simp [hreply, hroot]

/-- **When the servers returned are servers of the zone.** -/
theorem zoneServers_own_iff (zone : Bytes) (env : Env) (s s' : St) (ips : List IpAddr)
    (h : getNameserversForZone zone env s = .ok (ips, s')) :
    (∀ ip ∈ ips, ServerOfZone zone env s ip) ↔ OwnServersOnly zone env s := by
  rw [getNameserversForZone_origins h, List.forall_mem_map]
  exact originsForZone_own

end Own

/-! ### Servers of something else -/

/-- `test` -/
def upperZone : Bytes := [4, 116, 101, 115, 116, 0]

/-- `a.test` -/
def lowerZone : Bytes := [1, 97, 4, 116, 101, 115, 116, 0]

def hostAddr : Ipv4Addr := ⟨192, 0, 2, 1⟩

def hostRecord (name : Bytes) : ResourceRecord :=
  ⟨name, 1, 1, 60, 4, [192, 0, 2, 1], some (.a hostAddr)⟩

/-- A referral to `test`, with `ns.test` as its server. -/
def upperReferral : Message :=
  let host : Bytes := [2, 110, 115, 4, 116, 101, 115, 116, 0]
  replyWith 0 [] [⟨upperZone, 2, 1, 60, 9, host, some (.ns host)⟩] [hostRecord host]

def referralEnv : Env := Env.answering Crypto.rejectAll fun _ _ => some upperReferral

/-- A resolver that has cached the address of the host `test`. -/
def hostState : St :=
  St.cacheResponse true 0 [0] (replyWith 0 [hostRecord upperZone] [] []) (.initial 10)

theorem upperReferral_replies :
    referralReply upperZone referralEnv (.initial 10) = some upperReferral ∧
      referralReply lowerZone referralEnv (.initial 10) = some upperReferral := by
  decide +kernel

theorem mem_upperReferral {ns : Bytes × Bytes}
    (h : ns ∈ nsHosts (ofType 2 upperReferral.authorities)) : ns.1 = upperZone :=
  congrArg Prod.fst (List.mem_singleton.mp h)

/-- Asked for `test`, the root servers send the referral, which is about it. -/
theorem zoneServers_own_iff_referral :
    ∃ s', getNameserversForZone upperZone referralEnv (.initial 10) = .ok ([.v4 hostAddr], s') ∧
      ServerOfZone upperZone referralEnv (.initial 10) (.v4 hostAddr) := by
  obtain ⟨s', h⟩ : ∃ s', getNameserversForZone upperZone referralEnv (.initial 10) =
      .ok ([.v4 hostAddr], s') := Run.result_eq_ok.mp (by decide +kernel)
  refine ⟨s', h, (zoneServers_own_iff _ _ _ _ _ h).mpr (.inr (.inr ⟨rfl, .inr ?_⟩)) _ (by simp)⟩
  intro msg hmsg
  obtain rfl := Option.some.inj (upperReferral_replies.1.symm.trans hmsg)
  refine OwnReferral.of_owners fun ns hns => ?_
  rw [mem_upperReferral hns]
  decide

/-- The address of the host `test` is returned for the zone `test`, and the
referral to `test` gives the servers of `a.test`. -/
theorem other_servers_returned :
    ((getNameserversForZone upperZone).result referralEnv hostState = .ok [.v4 hostAddr] ∧
      ¬ ServerOfZone upperZone referralEnv hostState (.v4 hostAddr)) ∧
    ((getNameserversForZone lowerZone).result referralEnv (.initial 10) = .ok [.v4 hostAddr] ∧
      ¬ ServerOfZone lowerZone referralEnv (.initial 10) (.v4 hostAddr)) := by
  refine ⟨⟨by decide +kernel, ?_⟩, by decide +kernel, ?_⟩
  · have hcached : hostState.shared.nsCache.get? upperZone = some [.v4 hostAddr] := by
      decide +kernel
    rw [serverOfZone_of_not_asks (by decide +kernel)]
    · rintro ⟨_, hroot⟩
      exact absurd hroot (by decide)
    · rintro ⟨_, hnone, _⟩
      rw [hcached] at hnone
      cases hnone
  · rw [serverOfZone_of_reply ⟨by decide +kernel, rfl, by decide⟩ upperReferral_replies.2]
    rintro ⟨ns, hns, howner, _⟩
    rw [mem_upperReferral hns] at howner
    exact absurd howner (by decide)

end FastDns.Resolver
