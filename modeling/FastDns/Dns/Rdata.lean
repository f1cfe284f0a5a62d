/-
RDATA parsers of `src/dns/types.rs`.

Each parser returns `some` parsed form, `none` where the source returns `None`,
and ends in a panic or diverges where the source does. Names embedded in RDATA
are decoded against the whole message `msg` from an absolute offset, not
against the RDATA slice.
-/

import FastDns.Dns.Decode

namespace FastDns.Dns

open FastDns.Lib

/-! ### The parsers -/

/-- `parse_a_rdata` -/
def parseARdata (rdata : Bytes) : DnsResult (Option RData) := do
  if rdata.length = 4 then
    let a ← index rdata 0
    let b ← index rdata 1
    let c ← index rdata 2
    let d ← index rdata 3
    pure (some (.a ⟨a, b, c, d⟩))
  else pure none

/-- `parse_aaaa_rdata` -/
def parseAaaaRdata (rdata : Bytes) : DnsResult (Option RData) :=
  if h : rdata.length = 16 then .ok (some (.aaaa ⟨rdata, h⟩)) else .ok none

/-- `parse_name_rdata` -/
def parseNameRdata (rdata msg : Bytes) (rdataOffset : Nat) (ctor : Bytes → RData) :
    DnsResult (Option RData) := do
  if rdata.isEmpty then pure none
  else
    match ← (decodeDomainName msg rdataOffset).attempt with
    | .ok (name, _) => pure (some (ctor name))
    | .error _ => pure none

/-- `parse_mx_rdata` -/
def parseMxRdata (rdata msg : Bytes) (rdataOffset : Nat) : DnsResult (Option RData) := do
  if rdata.length < 3 then pure none
  else
    let preference ← readU16 rdata 0
    match ← (decodeDomainName msg (rdataOffset + 2)).attempt with
    | .ok (exchange, _) => pure (some (.mx preference exchange))
    | .error _ => pure none

/-- `parse_soa_rdata` -/
def parseSoaRdata (rdata msg : Bytes) (rdataOffset : Nat) : DnsResult (Option RData) := do
  match ← (decodeDomainName msg rdataOffset).attempt with
  | .error _ => pure none
  | .ok (mname, off) =>
      match ← (decodeDomainName msg off).attempt with
      | .error _ => pure none
      | .ok (rname, off) =>
          let dataStart ← checkedSub off rdataOffset
          if dataStart + 20 > rdata.length then pure none
          else
            let serial ← readU32 rdata dataStart
            let refresh ← readU32 rdata (dataStart + 4)
            let retry ← readU32 rdata (dataStart + 8)
            let expire ← readU32 rdata (dataStart + 12)
            let minimum ← readU32 rdata (dataStart + 16)
            pure (some (.soa ⟨mname, rname, serial, refresh, retry, expire, minimum⟩))

/-- The loop of `parse_txt_rdata`; a character-string that is not UTF-8 is
skipped, one cut short ends the parse with `None`. -/
def txtParts : Nat → Bytes → Option (List Bytes)
  | 0, _ => some []
  | _ + 1, [] => some []
  | fuel + 1, len :: rest =>
      if len.toNat > rest.length then none
      else
        match txtParts fuel (rest.drop len.toNat) with
        | none => none
        | some parts =>
            let s := rest.take len.toNat
            some (if validUtf8 s then s :: parts else parts)

/-- `parse_txt_rdata` -/
def parseTxtRdata (rdata : Bytes) : DnsResult (Option RData) :=
  .ok ((txtParts rdata.length rdata).map .txt)

/-- `parse_srv_rdata` -/
def parseSrvRdata (rdata msg : Bytes) (rdataOffset : Nat) : DnsResult (Option RData) := do
  if rdata.length < 7 then pure none
  else
    let priority ← readU16 rdata 0
    let weight ← readU16 rdata 2
    let port ← readU16 rdata 4
    match ← (decodeDomainName msg (rdataOffset + 6)).attempt with
    | .ok (target, _) => pure (some (.srv priority weight port target))
    | .error _ => pure none

/-- `parse_rrsig_rdata`: the only parser with a name inside that checks that the
name ends inside the RDATA before it slices the rest. -/
def parseRrsigRdata (rdata msg : Bytes) (rdataOffset : Nat) : DnsResult (Option RData) := do
  if rdata.length < 18 then pure none
  else
    let typeCovered ← readU16 rdata 0
    let algorithm ← index rdata 2
    let labels ← index rdata 3
    let originalTtl ← readU32 rdata 4
    let signatureExpiration ← readU32 rdata 8
    let signatureInception ← readU32 rdata 12
    let keyTag ← readU16 rdata 16
    match ← (decodeDomainName msg (rdataOffset + 18)).attempt with
    | .error _ => pure none
    | .ok (signerName, endOffset) =>
        let sigStart ← checkedSub endOffset rdataOffset
        if sigStart > rdata.length then pure none
        else
          let signature ← sliceFrom rdata sigStart
          pure (some (.rrsig ⟨typeCovered, algorithm, labels, originalTtl, signatureExpiration,
            signatureInception, keyTag, signerName, signature⟩))

/-- `parse_dnskey_rdata` -/
def parseDnskeyRdata (rdata : Bytes) : DnsResult (Option RData) := do
  if rdata.length < 4 then pure none
  else
    let flags ← readU16 rdata 0
    let protocol ← index rdata 2
    let algorithm ← index rdata 3
    let publicKey ← sliceFrom rdata 4
    pure (some (.dnskey ⟨flags, protocol, algorithm, publicKey⟩))

/-- `parse_nsec_rdata`: the slice `rdata[bitmaps_start..]` is not guarded. -/
def parseNsecRdata (rdata msg : Bytes) (rdataOffset : Nat) : DnsResult (Option RData) := do
  match ← (decodeDomainName msg rdataOffset).attempt with
  | .error _ => pure none
  | .ok (nextDomain, endOffset) =>
      let bitmapsStart ← checkedSub endOffset rdataOffset
      let typeBitMaps ← sliceFrom rdata bitmapsStart
      pure (some (.nsec nextDomain typeBitMaps))

/-- `parse_ds_rdata` -/
def parseDsRdata (rdata : Bytes) : DnsResult (Option RData) := do
  if rdata.length < 4 then pure none
  else
    let keyTag ← readU16 rdata 0
    let algorithm ← index rdata 2
    let digestType ← index rdata 3
    let digest ← sliceFrom rdata 4
    pure (some (.ds ⟨keyTag, algorithm, digestType, digest⟩))

/-- `parse_rdata` -/
def parseRdata (rtype : UInt16) (rdata msg : Bytes) (rdataOffset : Nat) :
    DnsResult (Option RData) :=
  if rtype = 1 then parseARdata rdata
  else if rtype = 28 then parseAaaaRdata rdata
  else if rtype = 5 then parseNameRdata rdata msg rdataOffset .cname
  else if rtype = 2 then parseNameRdata rdata msg rdataOffset .ns
  else if rtype = 12 then parseNameRdata rdata msg rdataOffset .ptr
  else if rtype = 15 then parseMxRdata rdata msg rdataOffset
  else if rtype = 6 then parseSoaRdata rdata msg rdataOffset
  else if rtype = 16 then parseTxtRdata rdata
  else if rtype = 33 then parseSrvRdata rdata msg rdataOffset
  else if rtype = 46 then parseRrsigRdata rdata msg rdataOffset
  else if rtype = 48 then parseDnskeyRdata rdata
  else if rtype = 43 then parseDsRdata rdata
  else if rtype = 47 then parseNsecRdata rdata msg rdataOffset
  else if rdata.length ≤ 65535 then .ok (some (.unknown rdata))
  else .ok none

/-! ### Writing a parsed form back -/

/-- `decompressed_rdata`. The `rtype` argument of the source is unused. -/
def decompressedRdata : RData → Bytes
  | .a ip => ip.octets
  | .aaaa ip => ip.octets
  | .cname name | .ns name | .ptr name => name
  | .mx preference exchange => u16ToBeBytes preference ++ exchange
  | .soa s =>
      s.mname ++ s.rname ++ u32ToBeBytes s.serial ++ u32ToBeBytes s.refresh ++
        u32ToBeBytes s.retry ++ u32ToBeBytes s.expire ++ u32ToBeBytes s.minimum
  | .txt strings => strings.flatMap fun s => UInt8.ofNat s.length :: s
  | .srv priority weight port target =>
      u16ToBeBytes priority ++ u16ToBeBytes weight ++ u16ToBeBytes port ++ target
  | .rrsig r =>
      u16ToBeBytes r.typeCovered ++ [r.algorithm, r.labels] ++ u32ToBeBytes r.originalTtl ++
        u32ToBeBytes r.signatureExpiration ++ u32ToBeBytes r.signatureInception ++
        u16ToBeBytes r.keyTag ++ r.signerName ++ r.signature
  | .dnskey k => u16ToBeBytes k.flags ++ [k.protocol, k.algorithm] ++ k.publicKey
  | .nsec nextDomain typeBitMaps => nextDomain ++ typeBitMaps
  | .ds d => u16ToBeBytes d.keyTag ++ [d.algorithm, d.digestType] ++ d.digest
  | .nsec3 n =>
      [n.hashAlgorithm, n.flags] ++ u16ToBeBytes n.iterations ++ [UInt8.ofNat n.salt.length] ++
        n.salt ++ n.nextHashedOwner ++ n.typeBitMaps
  | .unknown original => original

/-! ### How the parsers can end

`RdataNameStart` and `NsecOverrun` read only the bytes of the message. They say
where names are decoded inside an RDATA, and which NSEC records are cut short;
`parseRdata_eq_diverge` and `parseRdata_eq_panic` show that nothing else can
keep a parser from returning. -/

/-- Where the parsers start to decode a name. A name behind a fixed part is
reached only when the RDATA is long enough for that part, and the second name
of an SOA only when the first one is well formed. -/
inductive RdataNameStart (msg : Bytes) (rtype : UInt16) (rdlen rdataOffset : Nat) : Nat → Prop where
  | whole : rtype = 5 ∨ rtype = 2 ∨ rtype = 12 → 0 < rdlen →
      RdataNameStart msg rtype rdlen rdataOffset rdataOffset
  | mx : rtype = 15 → 3 ≤ rdlen → RdataNameStart msg rtype rdlen rdataOffset (rdataOffset + 2)
  | mname : rtype = 6 → RdataNameStart msg rtype rdlen rdataOffset rdataOffset
  | rname {n : Bytes} {next : Nat} : rtype = 6 → NameAt msg rdataOffset rdataOffset n next →
      RdataNameStart msg rtype rdlen rdataOffset next
  | srv : rtype = 33 → 7 ≤ rdlen → RdataNameStart msg rtype rdlen rdataOffset (rdataOffset + 6)
  | rrsig : rtype = 46 → 18 ≤ rdlen → RdataNameStart msg rtype rdlen rdataOffset (rdataOffset + 18)
  | nsec : rtype = 47 → RdataNameStart msg rtype rdlen rdataOffset rdataOffset

/-- Some name inside the RDATA cycles. -/
def RdataCycles (msg : Bytes) (rtype : UInt16) (rdlen rdataOffset : Nat) : Prop :=
  ∃ s, RdataNameStart msg rtype rdlen rdataOffset s ∧ NameCycles msg s

/-- An NSEC record whose next-domain name ends after the RDATA does. -/
def NsecOverrun (msg : Bytes) (rtype : UInt16) (rdlen rdataOffset : Nat) : Prop :=
  rtype = 47 ∧ ∃ n next, NameAt msg rdataOffset rdataOffset n next ∧ rdataOffset + rdlen < next

theorem rdataCycles_iff {msg : Bytes} {rtype : UInt16} {rdlen off : Nat} :
    RdataCycles msg rtype rdlen off ↔
      ((rtype = 5 ∨ rtype = 2 ∨ rtype = 12) ∧ 0 < rdlen ∧ NameCycles msg off) ∨
      (rtype = 15 ∧ 3 ≤ rdlen ∧ NameCycles msg (off + 2)) ∨
      (rtype = 6 ∧ (NameCycles msg off ∨
        ∃ n next, NameAt msg off off n next ∧ NameCycles msg next)) ∨
      (rtype = 33 ∧ 7 ≤ rdlen ∧ NameCycles msg (off + 6)) ∨
      (rtype = 46 ∧ 18 ≤ rdlen ∧ NameCycles msg (off + 18)) ∨
      (rtype = 47 ∧ NameCycles msg off) := by
  constructor
  · rintro ⟨s, hs, hc⟩
    cases hs with
    | whole ht hl => exact .inl ⟨ht, hl, hc⟩
    | mx ht hl => exact .inr (.inl ⟨ht, hl, hc⟩)
    | mname ht => exact .inr (.inr (.inl ⟨ht, .inl hc⟩))
    | rname ht hn => exact .inr (.inr (.inl ⟨ht, .inr ⟨_, _, hn, hc⟩⟩))
    | srv ht hl => exact .inr (.inr (.inr (.inl ⟨ht, hl, hc⟩)))
    | rrsig ht hl => exact .inr (.inr (.inr (.inr (.inl ⟨ht, hl, hc⟩))))
    | nsec ht => exact .inr (.inr (.inr (.inr (.inr ⟨ht, hc⟩))))
  · rintro (⟨ht, hl, hc⟩ | ⟨ht, hl, hc⟩ | ⟨ht, hc | ⟨n, next, hn, hc⟩⟩ | ⟨ht, hl, hc⟩ |
      ⟨ht, hl, hc⟩ | ⟨ht, hc⟩)
    · exact ⟨_, .whole ht hl, hc⟩
    · exact ⟨_, .mx ht hl, hc⟩
    · exact ⟨_, .mname ht, hc⟩
    · exact ⟨_, .rname ht hn, hc⟩
    · exact ⟨_, .srv ht hl, hc⟩
    · exact ⟨_, .rrsig ht hl, hc⟩
    · exact ⟨_, .nsec ht, hc⟩

section Ends

variable {rdata msg : Bytes} {off : Nat}

/-- The three ways decoding a name can end: a name of the grammar, an error, or
a cycle. They exclude each other. -/
theorem decodeDomainName_cases (msg : Bytes) (off : Nat) :
    (∃ n next, decodeDomainName msg off = .ok (n, next) ∧ NameAt msg off off n next ∧
        ¬ NameCycles msg off) ∨
      (∃ e, decodeDomainName msg off = .err e ∧ (∀ n next, ¬ NameAt msg off off n next) ∧
        ¬ NameCycles msg off) ∨
      (decodeDomainName msg off = .diverge ∧ (∀ n next, ¬ NameAt msg off off n next) ∧
        NameCycles msg off) := by
  have hcycle := decodeDomainName_eq_diverge msg off
  have hname : ∀ n next, decodeDomainName msg off = .ok (n, next) ↔ NameAt msg off off n next :=
    fun _ _ => decodeDomainName_eq_ok
  cases h : decodeDomainName msg off with
  | ok r =>
      rw [h] at hcycle hname
      refine .inl ⟨r.1, r.2, rfl, (hname _ _).mp rfl, fun hc => ?_⟩
      cases hcycle.mpr hc
  | err e =>
      rw [h] at hcycle hname
      refine .inr (.inl ⟨e, rfl, fun n next hn => ?_, fun hc => ?_⟩)
      · cases (hname n next).mpr hn
      · cases hcycle.mpr hc
  | panic => exact absurd h (decodeDomainName_ne_panic msg off)
  | diverge =>
      rw [h] at hcycle hname
      refine .inr (.inr ⟨rfl, fun n next hn => ?_, hcycle.mp rfl⟩)
      cases (hname n next).mpr hn

/-- A name followed by constructors that cannot fail: such a parser diverges
with the name, never panics and never returns an error. -/
theorem attempt_name_ends (f : Bytes → Option RData) :
    ((do match ← (decodeDomainName msg off).attempt with
        | .ok (name, _) => pure (f name)
        | .error _ => pure none : DnsResult (Option RData)) = .diverge ↔ NameCycles msg off) ∧
      (do match ← (decodeDomainName msg off).attempt with
        | .ok (name, _) => pure (f name)
        | .error _ => pure none : DnsResult (Option RData)) ≠ .panic ∧
      ∀ e, (do match ← (decodeDomainName msg off).attempt with
        | .ok (name, _) => pure (f name)
        | .error _ => pure none : DnsResult (Option RData)) ≠ .err e := by
  rcases decodeDomainName_cases msg off with ⟨n, next, h, _, hc⟩ | ⟨e, h, _, hc⟩ | ⟨h, _, hc⟩
  · simp [h, hc]
  · simp [h, hc]
  · simp [h, hc]

theorem parseNameRdata_ends (ctor : Bytes → RData) :
    (parseNameRdata rdata msg off ctor = .diverge ↔ 0 < rdata.length ∧ NameCycles msg off) ∧
      parseNameRdata rdata msg off ctor ≠ .panic ∧
      ∀ e, parseNameRdata rdata msg off ctor ≠ .err e := by
  unfold parseNameRdata
  cases rdata with
  | nil => simp
  | cons b rest => simpa using attempt_name_ends fun name => some (ctor name)

theorem parseMxRdata_ends :
    (parseMxRdata rdata msg off = .diverge ↔ 3 ≤ rdata.length ∧ NameCycles msg (off + 2)) ∧
      parseMxRdata rdata msg off ≠ .panic ∧ ∀ e, parseMxRdata rdata msg off ≠ .err e := by
  unfold parseMxRdata
  by_cases hlen : rdata.length < 3
  · simp [hlen]
  · rw [readU16_of_le (by omega)]
    simpa [hlen, Nat.le_of_not_lt hlen] using
      attempt_name_ends fun name => some (.mx (u16At rdata 0) name)

theorem parseSrvRdata_ends :
    (parseSrvRdata rdata msg off = .diverge ↔ 7 ≤ rdata.length ∧ NameCycles msg (off + 6)) ∧
      parseSrvRdata rdata msg off ≠ .panic ∧ ∀ e, parseSrvRdata rdata msg off ≠ .err e := by
  unfold parseSrvRdata
  by_cases hlen : rdata.length < 7
  · simp [hlen]
  · rw [readU16_of_le (by omega), readU16_of_le (by omega), readU16_of_le (by omega)]
    simpa [hlen, Nat.le_of_not_lt hlen] using
      attempt_name_ends fun name => some (.srv (u16At rdata 0) (u16At rdata 2) (u16At rdata 4) name)

theorem parseSoaRdata_ends :
    (parseSoaRdata rdata msg off = .diverge ↔
      NameCycles msg off ∨ ∃ n next, NameAt msg off off n next ∧ NameCycles msg next) ∧
      parseSoaRdata rdata msg off ≠ .panic ∧ ∀ e, parseSoaRdata rdata msg off ≠ .err e := by
  unfold parseSoaRdata
  rcases decodeDomainName_cases msg off with ⟨n, next, h, hn, hc⟩ | ⟨e, h, hno, hc⟩ | ⟨h, _, hc⟩
  · have hcycle : (NameCycles msg off ∨ ∃ n next, NameAt msg off off n next ∧ NameCycles msg next) ↔
        NameCycles msg next := by
      constructor
      · rintro (hc' | ⟨n', next', hn', hc'⟩)
        · exact absurd hc' hc
        · exact (hn.unique hn').2 ▸ hc'
      · exact fun hc => .inr ⟨n, next, hn, hc⟩
    rw [hcycle]
    rcases decodeDomainName_cases msg next with ⟨n', next', h', hn', hc'⟩ | ⟨e, h', _, hc'⟩ |
      ⟨h', _, hc'⟩
    · have hle : off ≤ next' := by
        have := hn.bounds
        have := hn'.bounds
        omega
      by_cases hfit : next' - off + 20 > rdata.length
      · simp [h, h', checkedSub_of_le hle, hfit, hc']
      · simp only [h, h', checkedSub_of_le hle, hfit, hc', Outcome.attempt_ok,
          Outcome.ok_bind, if_false]
        rw [readU32_of_le (by omega), readU32_of_le (by omega), readU32_of_le (by omega),
          readU32_of_le (by omega), readU32_of_le (by omega)]
        simp
    · simp [h, h', hc']
    · simp [h, h', hc']
  · simp [h, hc, hno]
  · simp [h, hc]

theorem parseRrsigRdata_ends :
    (parseRrsigRdata rdata msg off = .diverge ↔
      18 ≤ rdata.length ∧ NameCycles msg (off + 18)) ∧
      parseRrsigRdata rdata msg off ≠ .panic ∧ ∀ e, parseRrsigRdata rdata msg off ≠ .err e := by
  unfold parseRrsigRdata
  by_cases hlen : rdata.length < 18
  · simp [hlen]
  simp only [hlen, if_false, Nat.le_of_not_lt hlen, true_and]
  rw [readU16_of_le (by omega), index_of_lt (by omega), index_of_lt (by omega),
    readU32_of_le (by omega), readU32_of_le (by omega), readU32_of_le (by omega),
    readU16_of_le (by omega)]
  rcases decodeDomainName_cases msg (off + 18) with ⟨n, next, h, hn, hc⟩ | ⟨e, h, _, hc⟩ |
    ⟨h, _, hc⟩
  · have hle : off ≤ next := by
      have := hn.bounds
      omega
    by_cases hsig : next - off > rdata.length
    · simp [h, hc, checkedSub_of_le hle, hsig]
    · simp [h, hc, checkedSub_of_le hle, hsig, sliceFrom_of_le (Nat.le_of_not_gt hsig)]
  · simp [h, hc]
  · simp [h, hc]

theorem parseNsecRdata_ends :
    (parseNsecRdata rdata msg off = .diverge ↔ NameCycles msg off) ∧
      (parseNsecRdata rdata msg off = .panic ↔
        ∃ n next, NameAt msg off off n next ∧ off + rdata.length < next) ∧
      ∀ e, parseNsecRdata rdata msg off ≠ .err e := by
  unfold parseNsecRdata
  rcases decodeDomainName_cases msg off with ⟨n, next, h, hn, hc⟩ | ⟨e, h, hno, hc⟩ |
    ⟨h, hno, hc⟩
  · have hle : off ≤ next := hn.bounds.1.le
    have hover : (∃ n next, NameAt msg off off n next ∧ off + rdata.length < next) ↔
        off + rdata.length < next := by
      constructor
      · rintro ⟨n', next', hn', hlt⟩
        exact (hn.unique hn').2 ▸ hlt
      · exact fun hlt => ⟨n, next, hn, hlt⟩
    rw [hover]
    by_cases hcut : next - off ≤ rdata.length
    · simp only [h, checkedSub_of_le hle, sliceFrom_of_le hcut, Outcome.attempt_ok,
        Outcome.ok_bind, Outcome.pure_eq, hc, reduceCtorEq, false_iff, ne_eq,
        not_false_eq_true, true_and,
        implies_true, and_true]
      omega
    · have hpanic : (sliceFrom rdata (next - off) : DnsResult Bytes) = .panic :=
        sliceFrom_eq_panic.mpr (Nat.lt_of_not_le hcut)
      simp only [h, checkedSub_of_le hle, hpanic, Outcome.attempt_ok, Outcome.ok_bind,
        Outcome.panic_bind, hc, reduceCtorEq, true_iff, ne_eq, not_false_eq_true,
        true_and, implies_true, and_true]
      omega
  · simp [h, hc, hno]
  · simp [h, hc, hno]

/-- The parsers of types without an embedded name always return. -/
theorem plain_ends :
    (∃ r, parseARdata rdata = .ok r) ∧ (∃ r, parseAaaaRdata rdata = .ok r) ∧
      (∃ r, parseTxtRdata rdata = .ok r) ∧ (∃ r, parseDnskeyRdata rdata = .ok r) ∧
      ∃ r, parseDsRdata rdata = .ok r := by
  refine ⟨?_, ?_, ⟨_, rfl⟩, ?_, ?_⟩
  · unfold parseARdata
    split
    · rw [index_of_lt (by omega), index_of_lt (by omega), index_of_lt (by omega),
        index_of_lt (by omega)]
      exact ⟨_, rfl⟩
    · exact ⟨_, rfl⟩
  · unfold parseAaaaRdata
    split
    · exact ⟨_, rfl⟩
    · exact ⟨_, rfl⟩
  · unfold parseDnskeyRdata
    split
    · exact ⟨_, rfl⟩
    · rw [readU16_of_le (by omega), index_of_lt (by omega), index_of_lt (by omega),
        sliceFrom_of_le (by omega)]
      exact ⟨_, rfl⟩
  · unfold parseDsRdata
    split
    · exact ⟨_, rfl⟩
    · rw [readU16_of_le (by omega), index_of_lt (by omega), index_of_lt (by omega),
        sliceFrom_of_le (by omega)]
      exact ⟨_, rfl⟩

/-- The parser `parse_rdata` dispatches to, type by type. -/
theorem parseRdata_cases (rtype : UInt16) (rdata msg : Bytes) (off : Nat) :
    rtype = 1 ∧ parseRdata rtype rdata msg off = parseARdata rdata ∨
    rtype = 28 ∧ parseRdata rtype rdata msg off = parseAaaaRdata rdata ∨
    rtype = 5 ∧ parseRdata rtype rdata msg off = parseNameRdata rdata msg off .cname ∨
    rtype = 2 ∧ parseRdata rtype rdata msg off = parseNameRdata rdata msg off .ns ∨
    rtype = 12 ∧ parseRdata rtype rdata msg off = parseNameRdata rdata msg off .ptr ∨
    rtype = 15 ∧ parseRdata rtype rdata msg off = parseMxRdata rdata msg off ∨
    rtype = 6 ∧ parseRdata rtype rdata msg off = parseSoaRdata rdata msg off ∨
    rtype = 16 ∧ parseRdata rtype rdata msg off = parseTxtRdata rdata ∨
    rtype = 33 ∧ parseRdata rtype rdata msg off = parseSrvRdata rdata msg off ∨
    rtype = 46 ∧ parseRdata rtype rdata msg off = parseRrsigRdata rdata msg off ∨
    rtype = 48 ∧ parseRdata rtype rdata msg off = parseDnskeyRdata rdata ∨
    rtype = 43 ∧ parseRdata rtype rdata msg off = parseDsRdata rdata ∨
    rtype = 47 ∧ parseRdata rtype rdata msg off = parseNsecRdata rdata msg off ∨
    (rtype ∉ [1, 28, 5, 2, 12, 15, 6, 16, 33, 46, 48, 43, 47] ∧
      ∃ parsed, parseRdata rtype rdata msg off = .ok parsed) := by
  by_cases hmem : rtype ∈ [1, 28, 5, 2, 12, 15, 6, 16, 33, 46, 48, 43, 47]
  · simp only [List.mem_cons, List.not_mem_nil, or_false] at hmem
    rcases hmem with rfl | rfl | rfl | rfl | rfl | rfl | rfl | rfl | rfl | rfl | rfl | rfl | rfl
    all_goals simp [parseRdata]
  · have hother : ∃ parsed, parseRdata rtype rdata msg off = .ok parsed := by
      simp only [List.mem_cons, List.not_mem_nil, or_false, not_or] at hmem
      simp only [parseRdata, hmem, if_false]
      by_cases hlen : rdata.length ≤ 65535
      · exact ⟨_, if_pos hlen⟩
      · exact ⟨_, if_neg hlen⟩
    simp [hmem, hother]

/-- How `parse_rdata` ends, type by type: it diverges with a name inside the RDATA,
panics where the name of an NSEC record overruns it, and never returns an error. -/
theorem parseRdata_ends {rtype : UInt16} :
    (parseRdata rtype rdata msg off = .diverge ↔ RdataCycles msg rtype rdata.length off) ∧
      (parseRdata rtype rdata msg off = .panic ↔ NsecOverrun msg rtype rdata.length off) ∧
      ∀ e, parseRdata rtype rdata msg off ≠ .err e := by
  obtain ⟨⟨_, ha⟩, ⟨_, haaaa⟩, ⟨_, htxt⟩, ⟨_, hdnskey⟩, _, hds⟩ := @plain_ends rdata
  rw [rdataCycles_iff, NsecOverrun]
  rcases parseRdata_cases rtype rdata msg off with ⟨rfl, h⟩ | ⟨rfl, h⟩ | ⟨rfl, h⟩ | ⟨rfl, h⟩ |
    ⟨rfl, h⟩ | ⟨rfl, h⟩ | ⟨rfl, h⟩ | ⟨rfl, h⟩ | ⟨rfl, h⟩ | ⟨rfl, h⟩ | ⟨rfl, h⟩ | ⟨rfl, h⟩ |
    ⟨rfl, h⟩ | ⟨hmem, parsed, h⟩
  · simp [h, ha]
  · simp [h, haaaa]
  · simpa [h] using parseNameRdata_ends .cname
  · simpa [h] using parseNameRdata_ends .ns
  · simpa [h] using parseNameRdata_ends .ptr
  · simpa [h] using parseMxRdata_ends
  · simpa [h] using parseSoaRdata_ends
  · simp [h, htxt]
  · simpa [h] using parseSrvRdata_ends
  · simpa [h] using parseRrsigRdata_ends
  · simp [h, hdnskey]
  · simp [h, hds]
  · simpa [h] using parseNsecRdata_ends
  · simp only [List.mem_cons, List.not_mem_nil, or_false, not_or] at hmem
    simp [h, hmem]

/-- **A parser diverges exactly when a name inside the RDATA cycles.** -/
theorem parseRdata_eq_diverge {rtype : UInt16} :
    parseRdata rtype rdata msg off = .diverge ↔ RdataCycles msg rtype rdata.length off :=
  parseRdata_ends.1

/-- **A parser panics exactly on an NSEC record whose name overruns the RDATA.** -/
theorem parseRdata_eq_panic {rtype : UInt16} :
    parseRdata rtype rdata msg off = .panic ↔ NsecOverrun msg rtype rdata.length off :=
  parseRdata_ends.2.1

/-- What is left: an RDATA that neither cycles nor overruns is parsed. -/
theorem parseRdata_returns {rtype : UInt16} (hcycle : ¬ RdataCycles msg rtype rdata.length off)
    (hover : ¬ NsecOverrun msg rtype rdata.length off) :
    ∃ parsed, parseRdata rtype rdata msg off = .ok parsed := by
  cases h : parseRdata rtype rdata msg off with
  | ok parsed => exact ⟨parsed, rfl⟩
  | err e => exact absurd h (parseRdata_ends.2.2 e)
  | panic => exact absurd (parseRdata_eq_panic.mp h) hover
  | diverge => exact absurd (parseRdata_eq_diverge.mp h) hcycle

end Ends

end FastDns.Dns
