/-
The world of the recursive resolver (`src/resolver/recursive.rs`): shared
caches, the environment, and the basic steps of a resolution.

A resolution is a program over `Env` and `St`. The environment answers upstream
queries and holds the clocks, the random query ids and what concurrent tasks do
to the shared caches while this one waits for a reply; all of them are indexed
by the number of readings so far, so an environment is an arbitrary oracle. The
state has the caches that all tasks share and a trace of the writes to them.

What the resolver keeps for speed only (round-trip times, server health, the TCP
pool, statistics) is left out; none of it decides which records are returned.
-/

import FastDns.Dns.Message
import FastDns.Dns.Names
import FastDns.Dnssec.Validate
import FastDns.Lib.Run
import FastDns.Resolver.Cache

namespace FastDns.Resolver

open FastDns.Lib FastDns.Dns FastDns.Dnssec

/-! ### Root hints (`src/resolver/root_hints.rs`) -/

/-- `Ipv6Addr::new`: eight 16-bit segments. -/
def v6 (a b c d e f g h : UInt16) : Ipv6Addr :=
  ⟨u16ToBeBytes a ++ u16ToBeBytes b ++ u16ToBeBytes c ++ u16ToBeBytes d ++ u16ToBeBytes e ++
    u16ToBeBytes f ++ u16ToBeBytes g ++ u16ToBeBytes h, rfl⟩

/-- `ROOT_SERVERS`, from `a.root-servers.net` to `m.root-servers.net`. -/
def rootServers : List (Ipv4Addr × Ipv6Addr) := [
    (⟨198, 41, 0, 4⟩, v6 0x2001 0x503 0xba3e 0 0 0 0 0x2e30),
    (⟨170, 247, 170, 53⟩, v6 0x2801 0x1b8 0x10 0xb 0 0 0 0x1),
    (⟨192, 33, 4, 12⟩, v6 0x2001 0x500 0x2 0 0 0 0 0xc),
    (⟨199, 7, 91, 13⟩, v6 0x2001 0x500 0x2d 0 0 0 0 0xd),
    (⟨192, 203, 230, 10⟩, v6 0x2001 0x500 0xa8 0 0 0 0 0xe),
    (⟨192, 5, 5, 241⟩, v6 0x2001 0x500 0x2f 0 0 0 0 0xf),
    (⟨192, 112, 36, 4⟩, v6 0x2001 0x500 0x12 0 0 0 0 0xd0d),
    (⟨198, 97, 190, 53⟩, v6 0x2001 0x500 0x1 0 0 0 0 0x53),
    (⟨192, 36, 148, 17⟩, v6 0x2001 0x7fe 0 0 0 0 0 0x53),
    (⟨192, 58, 128, 30⟩, v6 0x2001 0x503 0xc27 0 0 0 0 0x2e30),
    (⟨193, 0, 14, 129⟩, v6 0x2001 0x7fd 0 0 0 0 0 0x1),
    (⟨199, 7, 83, 42⟩, v6 0x2001 0x500 0x9f 0 0 0 0 0x42),
    (⟨202, 12, 27, 33⟩, v6 0x2001 0xdc3 0 0 0 0 0 0x35)]

/-- `initial_root_addrs` -/
def initialRootAddrs : List IpAddr := rootServers.flatMap fun r => [.v4 r.1, .v6 r.2]

/-! ### Shared caches -/

/-- `MAX_ITERATIONS` -/
def maxIterations : Nat := 32

/-- `MAX_CNAME_DEPTH` -/
def maxCnameDepth : Nat := 10

/-- `NS_CACHE_MAX` -/
def nsCacheMax : Nat := 4096

/-- `DELEGATION_CACHE_MAX` -/
def delegationCacheMax : Nat := 1024

/-- `DELEGATION_CACHE_TTL`, in the unit of the clock. -/
def delegationCacheTtl : Nat := nanos 7200

/-- The caches behind the mutexes of `RecursiveResolver`. -/
structure Shared where
  cache : DnsCache
  nsCache : Lru Bytes (List IpAddr)
  delegationCache : Lru Bytes (List IpAddr × Nat)

/-- The caches of `RecursiveResolver::new`. -/
def Shared.new (cacheSize : Nat) : Shared where
  cache := .withMaxEntries cacheSize
  nsCache := .new nsCacheMax (by decide)
  delegationCache := .new delegationCacheMax (by decide)

/-- The calls tasks make on the shared caches. -/
inductive SharedOp where
  | cache (now : Nat) (op : CacheOp)
  | nsGet (name : Bytes)
  | nsPut (name : Bytes) (ips : List IpAddr)
  | delegationGet (zone : Bytes)
  | delegationPut (zone : Bytes) (ips : List IpAddr) (expiry : Nat)

def Shared.apply (c : Shared) : SharedOp → Shared
  | .cache now op => { c with cache := c.cache.apply now op }
  | .nsGet name => { c with nsCache := c.nsCache.touch name }
  | .nsPut name ips => { c with nsCache := c.nsCache.put name ips }
  | .delegationGet zone => { c with delegationCache := c.delegationCache.touch zone }
  | .delegationPut zone ips expiry =>
      { c with delegationCache := c.delegationCache.put zone (ips, expiry) }

/-- The address in an A record, or in an AAAA record if IPv6 is enabled. -/
def recordAddr (enableIpv6 : Bool) (r : ResourceRecord) : Option IpAddr :=
  match r.parsed with
  | some (.a ip) => some (.v4 ip)
  | some (.aaaa ip) => if enableIpv6 then some (.v6 ip) else none
  | _ => none

/-- The first half of a round of `cache_response`: OPT, RRSIG and DNSKEY records
stay out of the record cache. -/
def Shared.storeRecord (now : Nat) (c : Shared) (r : ResourceRecord) : Shared :=
  if r.rtype ≠ 41 ∧ r.rtype ≠ 46 ∧ r.rtype ≠ 48 then
    { c with cache := c.cache.insertRecords now [r] }
  else c

/-- The second half: addresses go to the nameserver cache as well. -/
def Shared.storeAddr (enableIpv6 : Bool) (c : Shared) (r : ResourceRecord) : Shared :=
  if r.rtype = 1 ∨ r.rtype = 28 then
    match recordAddr enableIpv6 r with
    | none => c
    | some ip =>
        let existing := (c.nsCache.get? r.name).getD []
        let nsCache := c.nsCache.touch r.name
        if existing.contains ip then { c with nsCache }
        else { c with nsCache := nsCache.put r.name (existing ++ [ip]) }
  else c

/-- One round of `cache_response`. -/
def Shared.cacheRecord (enableIpv6 : Bool) (now : Nat) (c : Shared) (r : ResourceRecord) :
    Shared :=
  (c.storeRecord now r).storeAddr enableIpv6 r

/-- The records of a message, section by section. -/
def messageRecords (msg : Message) : List ResourceRecord :=
  msg.answers ++ msg.authorities ++ msg.additionals

/-- `cache_response` -/
def Shared.cacheResponse (enableIpv6 : Bool) (now : Nat) (msg : Message) (c : Shared) : Shared :=
  (messageRecords msg).foldl (Shared.cacheRecord enableIpv6 now) c

/-- `cache_delegation` -/
def Shared.cacheDelegation (now : Nat) (zoneName : Bytes) (serverIps : List IpAddr) (c : Shared) :
    Shared :=
  c.apply (.delegationPut zoneName serverIps (now + delegationCacheTtl))

/-- The loop of `find_cached_delegation` over the suffixes of a name. With the
servers it returns the suffix they were found under. The source reads the clock
at every hit; the whole walk is under one lock, and one reading stands for all. -/
def findDelegationLoop (now : Nat) :
    Nat → Bytes → Shared → Option (List IpAddr × Bytes) × Shared
  | 0, _, c => (none, c)
  | fuel + 1, suffix, c =>
      match suffix with
      | [] => (none, c)
      | first :: rest =>
          if rest.isEmpty then (none, c)
          else
            let c' := c.apply (.delegationGet suffix)
            match c.delegationCache.get? suffix with
            | some (servers, expiry) =>
                if now < expiry then (some (servers, suffix), c')
                else findDelegationLoop now fuel (rest.drop first.toNat) c'
            | none => findDelegationLoop now fuel (rest.drop first.toNat) c'

/-- `find_cached_delegation` -/
def findCachedDelegation (now : Nat) (name : Bytes) (c : Shared) :
    Option (List IpAddr × Bytes) × Shared :=
  findDelegationLoop now name.length name c

/-! ### Environment and state -/

/-- The settings of a resolver. `clone_no_dnssec` changes the second one. -/
structure Config where
  enableIpv6 : Bool
  dnssecOk : Bool
deriving DecidableEq, Repr

/-- The outside world. Each reading has its number. -/
structure Env where
  crypto : Crypto
  /-- The message that answers a query to a set of servers, if any does. -/
  reply : Nat → Bytes → List IpAddr → Option Message
  clock : Nat → Nat
  wall : Nat → UInt32
  queryId : Nat → UInt16
  /-- What other tasks do to the shared caches during a query. -/
  others : Nat → List SharedOp
  /-- The deadline of a stale refresh passes during this query. -/
  expires : Nat → Bool

/-- A write to the shared caches on account of a response, with the zone whose
servers sent it and the caches before and after. -/
inductive Event where
  | response (zone : Bytes) (msg : Message) (before after : Shared)
  | delegation (zone name : Bytes) (msg : Message) (written : Bytes) (before after : Shared)

structure St where
  shared : Shared
  tick : Nat
  /-- A stale refresh with a deadline is under way. -/
  refreshing : Bool
  trace : List Event

/-- A resolver that has just been started. -/
def St.initial (cacheSize : Nat) : St := ⟨Shared.new cacheSize, 0, false, []⟩

/-- The environment in which every query is answered by `reply`, time stands
still and no other task is active. -/
def Env.answering (crypto : Crypto) (reply : Bytes → List IpAddr → Option Message) : Env where
  crypto
  reply := fun _ => reply
  clock _ := 0
  wall _ := 0
  queryId _ := 0
  others _ := []
  expires _ := false

/-- A reply with the given sections. -/
def replyWith (rcode : UInt8) (answers authorities additionals : List ResourceRecord) : Message where
  header := { Header.newQuery 0 false with qr := true, rcode }
  questions := []
  answers
  authorities
  additionals

/-- What ends a call early: an error it returns, or its cancellation by the
deadline of the refresh it is part of. -/
inductive Stop where
  | error (e : DnsError)
  | cancelled
deriving DecidableEq, Repr

/-- Programs of the resolver. -/
abbrev Resolve := Run Env St Stop

/-! ### Basic steps -/

/-- The number of the next reading. -/
def nextTick : Resolve Nat := do
  let s ← Run.get
  Run.modify fun s => { s with tick := s.tick + 1 }
  pure s.tick

/-- `Instant::now()` -/
def readClock : Resolve Nat := do
  let env ← Run.read
  let n ← nextTick
  pure (env.clock n)

/-- `SystemTime::now()`, in seconds as `u32`. -/
def readWall : Resolve UInt32 := do
  let env ← Run.read
  let n ← nextTick
  pure (env.wall n)

/-- `rand::thread_rng().gen()` -/
def randomId : Resolve UInt16 := do
  let env ← Run.read
  let n ← nextTick
  pure (env.queryId n)

/-- A call on the shared caches. -/
def act (op : SharedOp) : Resolve Unit :=
  Run.modify fun s => { s with shared := s.shared.apply op }

/-- Return an error. -/
def fail {α : Type} (e : DnsError) : Resolve α := Run.throw (.error e)

/-- A fallible function without state, with `?`. -/
def call {α : Type} (x : DnsResult α) : Resolve α := Run.lift .error x

/-- `match f.await { Ok(..) => .., Err(..) => .. }`: errors can be caught,
cancellation cannot. -/
def attempt {α : Type} (m : Resolve α) : Resolve (Except DnsError α) :=
  Run.handle (do let a ← m; pure (.ok a)) fun
    | .error e => pure (.error e)
    | .cancelled => Run.throw .cancelled

/-- `tokio::spawn`, run to its end at this point: its result is dropped, a panic
stays inside the task, and no deadline of the caller applies to it. -/
def spawn {α : Type} (m : Resolve α) : Resolve Unit := fun env s =>
  match m env { s with refreshing := false } with
  | .ok (_, s') => .ok ((), { s' with refreshing := s.refreshing })
  | .err (_, s') => .ok ((), { s' with refreshing := s.refreshing })
  | .panic => .ok ((), s)
  | .diverge => .diverge

def setRefreshing (b : Bool) : Resolve Unit := Run.modify fun s => { s with refreshing := b }

/-- `tokio::time::timeout` of a stale refresh. Inside another refresh its own
deadline is the later one and never fires first. -/
def withDeadline {α : Type} (m : Resolve α) : Resolve α := do
  let s ← Run.get
  if s.refreshing then m
  else do
    setRefreshing true
    let a ← Run.handle m fun stop => do
      setRefreshing false
      match stop with
      | .error e => fail e
      | .cancelled => fail (.transport "stale refresh timed out")
    setRefreshing false
    pure a

/-- What the other tasks do while this one waits. -/
def actOthers : List SharedOp → Resolve Unit
  | [] => pure ()
  | op :: ops => do
      act op
      actOthers ops

/-- `query_servers_concurrent`, as an oracle: some server's decoded reply or
nothing. -/
def queryServersConcurrent (query : Bytes) (servers : List IpAddr) : Resolve (Option Message) := do
  if servers.isEmpty then pure none
  else
    let env ← Run.read
    let n ← nextTick
    let s ← Run.get
    actOthers (env.others n)
    if s.refreshing && env.expires n then Run.throw .cancelled
    else pure (env.reply n query servers)

/-- `DnsCache::lookup` under its mutex. -/
def cacheLookup (key : CacheKey) : Resolve (Option (List ResourceRecord × UInt32)) := do
  let now ← readClock
  let s ← Run.get
  act (.cache now (.lookup key))
  pure (s.shared.cache.lookup now key).1

/-- `DnsCache::lookup_stale` under its mutex. -/
def cacheLookupStale (key : CacheKey) : Resolve (Option (List ResourceRecord)) := do
  let now ← readClock
  let s ← Run.get
  act (.cache now (.lookupStale key))
  pure (s.shared.cache.lookupStale now key).1

/-- `DnsCache::insert_records` under its mutex. -/
def insertEach (now : Nat) : List ResourceRecord → Resolve Unit
  | [] => pure ()
  | r :: rs => do
      act (.cache now (.insert (r.name, r.rtype, r.rclass) r.ttl r.rdata r.rdlength))
      insertEach now rs

def cacheInsertRecords (records : List ResourceRecord) : Resolve Unit := do
  let now ← readClock
  insertEach now records

/-- `ns_cache.get` under its mutex. -/
def nsLookup (name : Bytes) : Resolve (Option (List IpAddr)) := do
  let s ← Run.get
  act (.nsGet name)
  pure (s.shared.nsCache.get? name)

/-- `find_cached_delegation` under its mutex. -/
def lookupDelegation (name : Bytes) : Resolve (Option (List IpAddr × Bytes)) := do
  let now ← readClock
  let s ← Run.get
  Run.modify fun s => { s with shared := (findCachedDelegation now name s.shared).2 }
  pure (findCachedDelegation now name s.shared).1

/-- The state after `cache_response`, with its event. -/
def St.cacheResponse (enableIpv6 : Bool) (now : Nat) (zone : Bytes) (msg : Message) (s : St) : St :=
  let after := s.shared.cacheResponse enableIpv6 now msg
  { s with shared := after, trace := s.trace ++ [.response zone msg s.shared after] }

/-- `cache_response`, of a response from the servers of `zone`. -/
def cacheResponse (cfg : Config) (zone : Bytes) (msg : Message) : Resolve Unit := do
  let now ← readClock
  Run.modify (St.cacheResponse cfg.enableIpv6 now zone msg)

/-- The state after `cache_delegation`, with its event. -/
def St.cacheDelegation (now : Nat) (zone name : Bytes) (msg : Message) (written : Bytes)
    (servers : List IpAddr) (s : St) : St :=
  let after := s.shared.cacheDelegation now written servers
  { s with shared := after, trace := s.trace ++ [.delegation zone name msg written s.shared after] }

/-- `cache_delegation` of `written`, while `name` is resolved and on account of
the response `msg` from the servers of `zone`. -/
def cacheDelegation (zone name : Bytes) (msg : Message) (written : Bytes) (servers : List IpAddr) :
    Resolve Unit := do
  let now ← readClock
  Run.modify (St.cacheDelegation now zone name msg written servers)

end FastDns.Resolver
