/-
What `Secure` means at the end of `validate_dnssec_chain`
(`src/resolver/recursive.rs`).

`ChainSound` is what the verdict should stand for: at every level a signature
over the DNSKEY records that verifies with a key that is a root anchor or has a
signed DS record at the parent. The walk itself verifies no signature over
DNSKEY records, takes a signer that says it is the root for the root, hashes
the DS input with an empty owner name and is content with a DS set that nobody
signed. So wherever it can return `Secure` at all, a server can make it do so
without a single valid signature (`chain_verdict_sound_iff`).
-/

import FastDns.Resolver.Authenticated

namespace FastDns.Resolver

open FastDns.Lib FastDns.Dns FastDns.Dnssec

/-! ### Sound chains -/

/-- A signature of the list over the DNSKEY records verifies with this key of theirs. -/
structure SignedBy (env : Env) (dnskeys rrsigs : List ResourceRecord) (key : ResourceRecord) :
    Prop where
  member : key ∈ dnskeys
  verified : ∃ rrsig ∈ rrsigs, rrsigTypeCovered rrsig = some 48 ∧
    ∃ n, validateRrset env.crypto (env.wall n) rrsig dnskeys [key] = .secure

/-- The DNSKEY records of a zone are authenticated: signed by a key that is a
root anchor, for the root, or by a key that matches a DS record whose RRset is
signed by the keys of a parent that is authenticated itself. -/
inductive ChainSound (env : Env) : Bytes → List ResourceRecord → List ResourceRecord → Prop where
  | anchored {zone : Bytes} {dnskeys rrsigs : List ResourceRecord} {key : ResourceRecord}
      (hsigned : SignedBy env dnskeys rrsigs key) (hroot : isRootZone zone = true)
      (hanchor : trustAnchors.any (sameDnskey key) = true) : ChainSound env zone dnskeys rrsigs
  | delegated {zone parent : Bytes} {dnskeys rrsigs : List ResourceRecord}
      {key ds dsRrsig : ResourceRecord} {dsReply keyReply : Message} {n : Nat}
      (hsigned : SignedBy env dnskeys rrsigs key) (hparent : parentZone zone = some parent)
      (hdsReply : env.Sends dsReply) (hds : ds ∈ ofType 43 dsReply.answers)
      (hmatch : verifyDs env.crypto ds key (labelsToString zone) = true)
      (hkeyReply : env.Sends keyReply)
      (hdsRrsig : dsRrsig ∈ ofType 46 (dsReply.answers ++ dsReply.authorities))
      (hdsSigned : validateRrset env.crypto (env.wall n) dsRrsig (ofType 43 dsReply.answers)
        (ofType 48 keyReply.answers) = .secure)
      (habove : ChainSound env parent (ofType 48 keyReply.answers)
        (ofType 46 (keyReply.answers ++ keyReply.authorities))) :
      ChainSound env zone dnskeys rrsigs

/-- A sound chain has a signature that verifies. -/
theorem ChainSound.signed {env : Env} {zone : Bytes} {dnskeys rrsigs : List ResourceRecord}
    (h : ChainSound env zone dnskeys rrsigs) : ∃ key, SignedBy env dnskeys rrsigs key := by
  cases h with
  | anchored hsigned => exact ⟨_, hsigned⟩
  | delegated hsigned => exact ⟨_, hsigned⟩

/-! ### When the walk can succeed -/

/-- The zone above, as the walk computes it. -/
def zoneAbove (zone : Bytes) : Bytes := (parentZone zone).getD [0]

/-- The conditions on the arguments of the walk without which it never returns
`Secure`, whatever it is answered. -/
def WalkCanPass (remaining : Nat) (zone : Bytes) (dnskeys rrsigs : List ResourceRecord)
    (signer : Bytes) : Prop :=
  0 < remaining ∧ (∃ r ∈ rrsigs, rrsigTypeCovered r = some 48) ∧
    if (isRootZone zone || isRootZone signer) = true then
      validateDnskeysAgainstRootAnchor dnskeys = true
    else zone.length ≤ 8165 ∧ (∃ dk ∈ dnskeys, ∃ k, dk.parsed = some (.dnskey k)) ∧
      (1 < remaining ∨ isRootZone (zoneAbove zone) = true)

section Verdict

variable {env : Env} {zone signer : Bytes} {dnskeys rrsigs : List ResourceRecord}

/-- A name that is asked for could be encoded in a query. -/
theorem queryZone_returns {β : Type} (name : Bytes) (rtype : UInt16) (zone : Bytes)
    (k : Message → Option β) :
    Run.Returns env (queryZone name rtype zone k) fun found =>
      found ≠ none → name.length ≤ 8165 := by
  refine Run.returns_bind' ?_
  intro id
  cases hquery : buildQueryStatic name rtype 1 id true false with
  | ok query =>
      intro s found s' _ _
      exact length_le_of_buildQueryStatic hquery
  | err e =>
      intro s found s' hrun hne
      cases hrun
      exact absurd rfl hne
  | panic =>
      intro s found s' hrun
      cases hrun
  | diverge =>
      intro s found s' hrun
      cases hrun

/-- A DS record is matched by a key, so there is one. -/
theorem exists_parsed_key {crypto : Crypto} {dsRecords : List ResourceRecord}
    (h : validateDnskeysAgainstDs crypto dnskeys dsRecords = true) :
    ∃ dk ∈ dnskeys, ∃ k, dk.parsed = some (.dnskey k) := by
  unfold validateDnskeysAgainstDs at h
  split at h
  · cases h
  · rename_i hne
    have hds : dsRecords ≠ [] := by
      rintro rfl
      simp at hne
    obtain ⟨ds, hmem⟩ := List.exists_mem_of_ne_nil _ hds
    obtain ⟨dk, hdk, hverify⟩ := List.any_eq_true.mp (List.all_eq_true.mp h ds hmem)
    refine ⟨dk, hdk, ?_⟩
    unfold verifyDs at hverify
    split at hverify
    · rename_i d k _ hk
      exact ⟨k, hk⟩
    · cases hverify

/-- **Only arguments that can pass lead to `Secure`.** -/
theorem validateDnssecChain_returns (remaining : Nat) :
    Run.Returns env (validateDnssecChain remaining zone dnskeys rrsigs signer) fun verdict =>
      verdict = .secure → WalkCanPass remaining zone dnskeys rrsigs signer := by
  cases remaining with
  | zero => exact Run.returns_pure (by rintro ⟨⟩)
  | succ remaining =>
      unfold validateDnssecChain
      split
      · exact Run.returns_pure (by rintro ⟨⟩)
      rename_i hcovered
      have hcovers : ∃ r ∈ rrsigs, rrsigTypeCovered r = some 48 := by
        simpa using hcovered
      split
      · rename_i hroot
        split
        · rename_i hanchor
          refine Run.returns_pure ?_
          intro _
          exact ⟨Nat.succ_pos _, hcovers, by rw [if_pos hroot]; exact hanchor⟩
        · exact Run.returns_pure (by rintro ⟨⟩)
      · rename_i hroot
        refine Run.returns_bind (queryZone_returns _ _ _ _) ?_
        intro found hlength
        cases found with
        | none => exact Run.returns_pure (by rintro ⟨⟩)
        | some found =>
            obtain ⟨dsRecords, dsRrsigs, parentDnskeys⟩ := found
            specialize hlength (by simp)
            refine Run.returns_bind' ?_
            intro env'
            split
            · exact Run.returns_pure (by rintro ⟨⟩)
            rename_i hds
            have hparsed := exists_parsed_key (by simpa using hds)
            have hpass : (1 < remaining + 1 ∨ isRootZone (zoneAbove zone) = true) →
                WalkCanPass (remaining + 1) zone dnskeys rrsigs signer := by
              intro hup
              exact ⟨Nat.succ_pos _, hcovers, by rw [if_neg hroot]; exact ⟨hlength, hparsed, hup⟩⟩
            refine Run.returns_bind' ?_
            intro now
            split
            · exact Run.returns_pure (by rintro ⟨⟩)
            refine Run.returns_bind' ?_
            intro parent
            cases parent with
            | none =>
                dsimp only
                split
                · rename_i hup
                  refine Run.returns_pure ?_
                  intro _
                  rw [Bool.and_eq_true] at hup
                  exact hpass (.inr hup.1)
                · exact Run.returns_pure (by rintro ⟨⟩)
            | some parent =>
                obtain ⟨parentKeys, parentRrsigs, parentSigner⟩ := parent
                cases remaining with
                | zero => exact Run.returns_pure (by rintro ⟨⟩)
                | succ remaining =>
                    intro s verdict s' _ _
                    exact hpass (.inl (by omega))

end Verdict

/-! ### A server that forges a chain -/

section Rejected

variable {publicKey signedData sig : Bytes}

theorem verifyEcdsa_reject (size : Nat) :
    verifyEcdsa (fun _ _ _ => false) (fun _ _ _ => false) size publicKey signedData sig =
      false := by
  unfold verifyEcdsa
  split
  · split <;> rfl
  · rfl

theorem verifyRsaSha256_rejectAll :
    verifyRsaSha256 Crypto.rejectAll publicKey signedData sig = false := by
  unfold verifyRsaSha256
  cases publicKey with
  | nil => rfl
  | cons b0 rest =>
      dsimp only
      split
      · rfl
      · simp only [Crypto.rejectAll, ite_self]

theorem verifySignature_rejectAll (algorithm : UInt8) :
    verifySignature Crypto.rejectAll algorithm publicKey signedData sig = false := by
  unfold verifySignature
  split
  · exact verifyRsaSha256_rejectAll
  split
  · exact verifyEcdsa_reject 64
  split
  · exact verifyEcdsa_reject 96
  split
  · simp [verifyEd25519, Crypto.rejectAll]
  · rfl

/-- Primitives that reject everything leave no signature valid. -/
theorem validateRrset_rejectAll (now : UInt32) (rrsig : ResourceRecord)
    (records dnskeys : List ResourceRecord) :
    validateRrset Crypto.rejectAll now rrsig records dnskeys ≠ .secure := by
  have hnone : ∀ s data, dnskeys.any (keyVerifies Crypto.rejectAll s data) = false := by
    intro s data
    rw [List.any_eq_false]
    intro dk _
    unfold keyVerifies
    split
    · simp [verifySignature_rejectAll]
    · simp
  unfold validateRrset
  split
  · split
    · simp
    · rw [hnone]
      simp
  · simp

end Rejected

/-- Where nothing verifies no chain is sound. -/
theorem not_chainSound {env : Env} (hcrypto : env.crypto = Crypto.rejectAll) {zone : Bytes}
    {dnskeys rrsigs : List ResourceRecord} : ¬ ChainSound env zone dnskeys rrsigs := by
  intro hsound
  obtain ⟨key, _, rrsig, _, _, n, hvalid⟩ := hsound.signed
  rw [hcrypto] at hvalid
  exact validateRrset_rejectAll _ _ _ _ hvalid

/-- The public root key, as anybody can send it. -/
def anchorRecord : ResourceRecord where
  name := [0]
  rtype := 48
  rclass := 1
  ttl := 60
  rdlength := 264
  rdata := dnskeyRdata 257 3 8 rootKsk2017PublicKey
  parsed := some (.dnskey ⟨257, 3, 8, rootKsk2017PublicKey⟩)

/-- A signature over DNSKEY records that names the root as its signer and is empty. -/
def rootSignedRrsig : ResourceRecord where
  name := [0]
  rtype := 46
  rclass := 1
  ttl := 60
  rdlength := 19
  rdata := [0, 48, 8, 0, 0, 0, 0, 60, 0, 0, 0, 0, 0, 0, 0, 0, 0, 0, 0]
  parsed := some (.rrsig ⟨48, 8, 0, 60, 0, 0, 0, [0], []⟩)

/-- A DS record for a key, with an empty digest. -/
def dsFor (k : Dnskey) : ResourceRecord where
  name := [0]
  rtype := 43
  rclass := 1
  ttl := 60
  rdlength := 4
  rdata := u16ToBeBytes (computeKeyTag k.flags k.protocol k.algorithm k.publicKey) ++
    [k.algorithm, 2]
  parsed := some
    (.ds ⟨computeKeyTag k.flags k.protocol k.algorithm k.publicKey, k.algorithm, 2, []⟩)

/-- The address of the server. -/
def forgerAddr : IpAddr := .v4 ⟨192, 0, 2, 53⟩

/-- The DS query is answered with a DS record for `k` and the public root key,
later queries as `later` says. -/
def forgingEnv (k : Dnskey) (later : Option Message) : Env :=
  { Env.answering Crypto.rejectAll fun _ _ => none with
    reply := fun n _ _ => if n ≤ 3 then some (replyWith 0 [dsFor k] [] [anchorRecord]) else later }

/-- The servers of a zone are known from the nameserver cache. -/
structure KnowsServer (zone : Bytes) (s : St) : Prop where
  delegations : ∀ z, s.shared.delegationCache.get? z = none
  servers : s.shared.nsCache.get? zone = some [forgerAddr]
  calm : s.refreshing = false

/-- A resolver that knows the servers of a zone and nothing else. -/
def knowingState (zone : Bytes) : St :=
  { St.initial 10 with
    shared := { Shared.new 10 with
      nsCache := (Shared.new 10).nsCache.put zone [forgerAddr] } }

theorem knowsServer_knowingState (zone : Bytes) : KnowsServer zone (knowingState zone) where
  delegations _ := rfl
  servers := Lru.get?_put_self
  calm := rfl

section Forging

variable {zone name : Bytes} {s : St}

/-- The forger is asked for every zone. -/
theorem getNameserversForZone_known (env : Env) (h : KnowsServer zone s) :
    ∃ s', getNameserversForZone zone env s = .ok ([forgerAddr], s') ∧ s'.tick = s.tick + 1 ∧
      KnowsServer zone s' := by
  have hmiss := findDelegationLoop_none (env.clock s.tick) zone.length zone h.delegations
  obtain ⟨-, hns, hdelegations⟩ :=
    findDelegationLoop_frame (env.clock s.tick) zone.length zone s.shared
  have hserver : (s.afterLookup env zone).shared.nsCache.get? zone = some [forgerAddr] :=
    (congrArg (Lru.get? · zone) hns).trans h.servers
  exact ⟨_, getNameserversForZone_cached hmiss h.servers, rfl,
    fun other => (hdelegations other).trans (h.delegations other), Lru.get?_touch.trans hserver,
    h.calm⟩

/-- A query to servers that are known gets the reply with the number of its reading. -/
theorem queryZone_known {β : Type} (env : Env) (reply : Option Message)
    (hothers : ∀ n, env.others n = []) (hlength : name.length ≤ 8165) (rtype : UInt16)
    (k : Message → Option β) (h : KnowsServer zone s)
    (hreply : ∀ query servers, env.reply (s.tick + 2) query servers = reply) :
    ∃ s', queryZone name rtype zone k env s = .ok (reply.bind k, s') ∧ s'.tick = s.tick + 3 ∧
      KnowsServer zone s' := by
  obtain ⟨query, hquery⟩ :=
    buildQueryStatic_of_length hlength rtype 1 (env.queryId s.tick) true false
  have hid : randomId env s = .ok (env.queryId s.tick, { s with tick := s.tick + 1 }) := rfl
  have hknows : KnowsServer zone { s with tick := s.tick + 1 } := ⟨h.delegations, h.servers, h.calm⟩
  obtain ⟨s₁, hservers, htick, hs₁⟩ := getNameserversForZone_known env hknows
  have hanswer : queryServersConcurrent query [forgerAddr] env s₁ =
      .ok (reply, { s₁ with tick := s₁.tick + 1 }) := by
    unfold queryServersConcurrent
    rw [if_neg (by decide), ← hreply query [forgerAddr]]
    have hn : nextTick env s₁ = .ok (s.tick + 2, { s₁ with tick := s₁.tick + 1 }) := by
      rw [← htick]
      rfl
    rw [Run.bind_of_ok Run.read_apply, Run.bind_of_ok hn, Run.bind_of_ok Run.get_apply, hothers]
    have hact : actOthers [] env { s₁ with tick := s₁.tick + 1 } =
        .ok ((), { s₁ with tick := s₁.tick + 1 }) := rfl
    rw [Run.bind_of_ok hact, if_neg (by simp [hs₁.calm])]
    rfl
  refine ⟨{ s₁ with tick := s₁.tick + 1 }, ?_, ?_, hs₁.delegations, hs₁.servers, hs₁.calm⟩
  · unfold queryZone
    rw [Run.bind_of_ok hid, hquery]
    have hrest : (getNameserversForZone zone >>= fun nameservers =>
        if nameservers.isEmpty then pure none
        else queryServersConcurrent query nameservers >>= fun reply => pure (reply.bind k)) env
          { s with tick := s.tick + 1 } =
        .ok (reply.bind k, { s₁ with tick := s₁.tick + 1 }) := by
      rw [Run.bind_of_ok hservers, if_neg (by decide), Run.bind_of_ok hanswer]
      rfl
    exact hrest
  · rw [htick]

end Forging

theorem validateDnskeysAgainstDs_dsFor {dnskeys : List ResourceRecord} {dk : ResourceRecord}
    {k : Dnskey} (hmem : dk ∈ dnskeys) (hparsed : dk.parsed = some (.dnskey k)) :
    validateDnskeysAgainstDs Crypto.rejectAll dnskeys [dsFor k] = true := by
  have hne : dnskeys ≠ [] := List.ne_nil_of_mem hmem
  have hverify : verifyDs Crypto.rejectAll (dsFor k) dk [] = true := by
    simp [verifyDs, dsFor, hparsed, Crypto.rejectAll]
  unfold validateDnskeysAgainstDs
  rw [if_neg (by simpa using hne)]
  simpa using ⟨dk, hmem, hverify⟩

/-- The parent has a shorter name. -/
theorem length_zoneAbove_le {zone : Bytes} (h : zone.length ≤ 8165) :
    (zoneAbove zone).length ≤ 8165 := by
  unfold zoneAbove parentZone
  split
  · decide
  · split
    · decide
    · rename_i first rest
      dsimp only
      split
      · decide
      · rw [List.length_cons] at h
        simp only [Option.getD_some, List.length_drop]
        omega

section Forged

variable {zone signer : Bytes} {dnskeys rrsigs : List ResourceRecord} {dk : ResourceRecord}
  {k : Dnskey}

/-- The end of a level of the walk, once the DNSKEY query is answered or not. -/
def finishLevel (remaining : Nat) (parent : Bytes) (parentDnskeys : List ResourceRecord) :
    Option (List ResourceRecord × List ResourceRecord × Bytes) → Resolve ValidationResult
  | none =>
      if isRootZone parent && validateDnskeysAgainstRootAnchor parentDnskeys then pure .secure
      else pure .indeterminate
  | some (parentKeys, parentRrsigs, _) =>
      validateDnssecChain remaining parent parentKeys parentRrsigs (signerOr parent parentRrsigs)

/-- Below the root, the walk gets past the DS records of the forger. -/
theorem validateDnssecChain_forged (hcovers : ∃ r ∈ rrsigs, rrsigTypeCovered r = some 48)
    (hroot : ¬ (isRootZone zone || isRootZone signer) = true) (hlength : zone.length ≤ 8165)
    (hmem : dk ∈ dnskeys) (hparsed : dk.parsed = some (.dnskey k)) (later : Option Message)
    (remaining : Nat) :
    ∃ s, s.tick = 4 ∧ KnowsServer (zoneAbove zone) s ∧
      validateDnssecChain (remaining + 1) zone dnskeys rrsigs signer (forgingEnv k later)
          (knowingState (zoneAbove zone)) =
        (queryDnskeyRecords (zoneAbove zone) >>=
          finishLevel remaining (zoneAbove zone) [anchorRecord]) (forgingEnv k later) s := by
  have hknows := knowsServer_knowingState (zoneAbove zone)
  have hds : ∃ s', queryDsRecords zone (zoneAbove zone) (forgingEnv k later)
        (knowingState (zoneAbove zone)) = .ok (some ([dsFor k], [], [anchorRecord]), s') ∧
      s'.tick = 3 ∧ KnowsServer (zoneAbove zone) s' :=
    queryZone_known (forgingEnv k later) (some (replyWith 0 [dsFor k] [] [anchorRecord]))
      (fun _ => rfl) hlength 43 _ hknows fun _ _ => rfl
  obtain ⟨s₁, hreply, htick, hs₁⟩ := hds
  have hwall : readWall (forgingEnv k later) s₁ =
      .ok ((forgingEnv k later).wall s₁.tick, { s₁ with tick := s₁.tick + 1 }) := rfl
  refine ⟨{ s₁ with tick := s₁.tick + 1 }, ?_, ⟨hs₁.delegations, hs₁.servers, hs₁.calm⟩, ?_⟩
  · exact congrArg (· + 1) htick
  · have hall : ¬ (rrsigs.all fun r => rrsigTypeCovered r ≠ some 48) = true := by
      simpa using hcovers
    have hmatch : ¬ (!validateDnskeysAgainstDs (forgingEnv k later).crypto dnskeys [dsFor k]) =
        true := by
      rw [show (forgingEnv k later).crypto = Crypto.rejectAll from rfl,
        validateDnskeysAgainstDs_dsFor hmem hparsed]
      decide
    rw [validateDnssecChain, if_neg hall, if_neg hroot]
    refine (Run.bind_of_ok hreply).trans ?_
    dsimp only
    rw [Run.bind_of_ok Run.read_apply, if_neg hmatch, Run.bind_of_ok hwall]
    rfl

/-- The parent is the root: the public root key in the DS reply is enough. -/
theorem validateDnssecChain_forged_root (hcovers : ∃ r ∈ rrsigs, rrsigTypeCovered r = some 48)
    (hroot : ¬ (isRootZone zone || isRootZone signer) = true) (hlength : zone.length ≤ 8165)
    (hmem : dk ∈ dnskeys) (hparsed : dk.parsed = some (.dnskey k))
    (habove : isRootZone (zoneAbove zone) = true) (remaining : Nat) :
    ∃ s', validateDnssecChain (remaining + 1) zone dnskeys rrsigs signer (forgingEnv k none)
      (knowingState (zoneAbove zone)) = .ok (.secure, s') := by
  obtain ⟨s, htick, hknows, hrun⟩ :=
    validateDnssecChain_forged hcovers hroot hlength hmem hparsed none remaining
  have hkeys : ∃ s', queryDnskeyRecords (zoneAbove zone) (forgingEnv k none) s = .ok (none, s') ∧
      s'.tick = s.tick + 3 ∧ KnowsServer (zoneAbove zone) s' := by
    refine queryZone_known (forgingEnv k none) none (fun _ => rfl)
      (length_zoneAbove_le hlength) 48 _ hknows ?_
    rw [htick]
    exact fun _ _ => rfl
  obtain ⟨s', hnone, _, _⟩ := hkeys
  have hanchor : validateDnskeysAgainstRootAnchor [anchorRecord] = true := by decide +kernel
  refine ⟨s', ?_⟩
  rw [hrun, Run.bind_of_ok hnone, finishLevel, if_pos (by rw [habove, hanchor]; rfl)]
  rfl

/-- The answer to the DNSKEY query: the public root key, and a signature that says
its signer is the root. -/
def forgedKeyReply : Message := replyWith 0 [anchorRecord, rootSignedRrsig] [] []

/-- With one more level to go, a signer that says it is the root is enough. -/
theorem validateDnssecChain_forged_signer (hcovers : ∃ r ∈ rrsigs, rrsigTypeCovered r = some 48)
    (hroot : ¬ (isRootZone zone || isRootZone signer) = true) (hlength : zone.length ≤ 8165)
    (hmem : dk ∈ dnskeys) (hparsed : dk.parsed = some (.dnskey k)) (remaining : Nat) :
    ∃ s', validateDnssecChain (remaining + 2) zone dnskeys rrsigs signer
      (forgingEnv k (some forgedKeyReply)) (knowingState (zoneAbove zone)) = .ok (.secure, s') := by
  obtain ⟨s, htick, hknows, hrun⟩ := validateDnssecChain_forged hcovers hroot hlength hmem hparsed
    (some forgedKeyReply) (remaining + 1)
  have hkeys : ∃ s', queryDnskeyRecords (zoneAbove zone) (forgingEnv k (some forgedKeyReply)) s =
        .ok (some ([anchorRecord], [rootSignedRrsig], [0]), s') ∧
      s'.tick = s.tick + 3 ∧ KnowsServer (zoneAbove zone) s' := by
    refine queryZone_known (forgingEnv k (some forgedKeyReply)) (some forgedKeyReply)
      (fun _ => rfl) (length_zoneAbove_le hlength) 48 _ hknows ?_
    rw [htick]
    exact fun _ _ => rfl
  obtain ⟨s', hsome, _, _⟩ := hkeys
  have hanchor : validateDnskeysAgainstRootAnchor [anchorRecord] = true := by decide +kernel
  refine ⟨s', ?_⟩
  rw [hrun, Run.bind_of_ok hsome, finishLevel, validateDnssecChain, if_neg (by decide),
    if_pos (by simp [signerOr, rootSignedRrsig, isRootZone]), if_pos hanchor]
  rfl

end Forged

/-! ### What the verdict is worth -/

/-- Whatever a walk from these arguments is answered, `Secure` means a sound chain. -/
def ChainVerdictSound (depth : Nat) (zone : Bytes) (dnskeys rrsigs : List ResourceRecord)
    (signer : Bytes) : Prop :=
  ∀ env s s', validateDnssecChain (chainLevels - depth) zone dnskeys rrsigs signer env s =
    .ok (.secure, s') → ChainSound env zone dnskeys rrsigs

/-- **`Secure` can be relied on for exactly those arguments for which it is never
returned**: beyond the depth limit, without a signature that covers DNSKEY, at
the root (by zone or by signer) without an anchor among the keys, and below it
without a parsed key, with a name too long for a query, or at the last level
with a parent that is not the root. -/
theorem chain_verdict_sound_iff (depth : Nat) (zone : Bytes) (dnskeys rrsigs : List ResourceRecord)
    (signer : Bytes) :
    ChainVerdictSound depth zone dnskeys rrsigs signer ↔
      ¬ WalkCanPass (chainLevels - depth) zone dnskeys rrsigs signer := by
  constructor
  · rintro hsound ⟨hlevels, hcovers, hrest⟩
    obtain ⟨remaining, hremaining⟩ := Nat.exists_eq_succ_of_ne_zero (Nat.ne_of_gt hlevels)
    unfold ChainVerdictSound at hsound
    rw [hremaining] at hsound
    by_cases hroot : (isRootZone zone || isRootZone signer) = true
    · rw [if_pos hroot] at hrest
      refine not_chainSound rfl (hsound (Env.answering Crypto.rejectAll fun _ _ => none)
        (St.initial 10) (St.initial 10) ?_)
      rw [validateDnssecChain, if_neg (by simpa using hcovers), if_pos hroot, if_pos hrest]
      rfl
    · rw [if_neg hroot] at hrest
      obtain ⟨hlength, ⟨dk, hmem, k, hparsed⟩, hup⟩ := hrest
      rcases hup with hlow | habove
      · obtain ⟨lower, rfl⟩ : ∃ lower, remaining = lower + 1 :=
          Nat.exists_eq_succ_of_ne_zero (by omega)
        obtain ⟨s', hrun⟩ :=
          validateDnssecChain_forged_signer hcovers hroot hlength hmem hparsed lower
        exact not_chainSound rfl (hsound _ _ _ hrun)
      · obtain ⟨s', hrun⟩ :=
          validateDnssecChain_forged_root hcovers hroot hlength hmem hparsed habove remaining
        exact not_chainSound rfl (hsound _ _ _ hrun)
  · intro hcannot env s s' hrun
    exact absurd (validateDnssecChain_returns _ s .secure s' hrun rfl) hcannot

/-- **A signer field that claims the root and the public root key are enough**: the
walk for `test` ends `Secure` without a query and without a valid signature. -/
theorem claimed_root_is_secure :
    (validateDnssecChain chainLevels [4, 0x74, 0x65, 0x73, 0x74, 0] [anchorRecord]
        [rootSignedRrsig] [0]).result (.answering Crypto.rejectAll fun _ _ => none)
        (.initial 10) = .ok .secure ∧
      ¬ ChainSound (.answering Crypto.rejectAll fun _ _ => none) [4, 0x74, 0x65, 0x73, 0x74, 0]
        [anchorRecord] [rootSignedRrsig] :=
  ⟨by decide +kernel, not_chainSound rfl⟩

end FastDns.Resolver
