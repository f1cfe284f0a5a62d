/-
The layouts of RDATA, and where its bytes mean the same.

`RdataLayout` lists, type by type, the byte strings that `parse_rdata` takes
apart completely, with names in uncompressed form. Such an RDATA is read the
same way wherever it stands (`parseRdata_of_layout`), and what the parser writes
back is always of this kind (`layout_of_parseRdata`).

An RDATA that the parser rejects is kept as it is. For the types without a name
inside it is rejected everywhere; for the others `ReadsNames` and `RdataCycles`
say from the bytes of a message at which places it is not
(`parseRdata_none_iff`).
-/

import FastDns.Dns.Names
import FastDns.Dns.Rdata

namespace FastDns.Dns

open FastDns.Lib

/-! ### Names without compression -/

/-- An uncompressed name: labels of 1 to 63 bytes and a zero byte. -/
def WireName (n : Bytes) : Prop := ∃ labels, LabelsOk labels ∧ n = wireName labels

section Names

variable {data : Bytes} {offset p : Nat} {n : Bytes}

theorem WireName.ne_nil (h : WireName n) : n ≠ [] := by
  obtain ⟨labels, _, rfl⟩ := h
  cases labels <;> exact List.cons_ne_nil _ _

/-- An uncompressed name is read where it stands, and ends where its bytes end. -/
theorem nameAt_of_standsAt (hn : WireName n) (h : StandsAt data p n) :
    NameAt data offset p n (p + n.length) := by
  obtain ⟨labels, hok, rfl⟩ := hn
  induction labels generalizing p with
  | nil => exact .root (standsAt_cons.mp h).1
  | cons label labels ih =>
      rw [wireName, List.cons_append, standsAt_cons, standsAt_append] at h
      obtain ⟨hbyte, hlabel, hrest⟩ := h
      have hlen := hok.toNat_length
      have hle := hlabel.le (hok label List.mem_cons_self).1
      have htake : (data.drop (p + 1)).take (UInt8.ofNat label.length).toNat = label := by
        rw [hlen]
        exact hlabel.take_drop
      have htail : NameAt data offset (p + 1 + (UInt8.ofNat label.length).toNat)
          (Dns.wireName labels) (p + 1 + label.length + (Dns.wireName labels).length) := by
        rw [hlen]
        exact ih hok.tail hrest
      have hname := NameAt.label hbyte hok.length_ne_zero
        (by rw [hlen]; exact (hok label List.mem_cons_self).2) (by rw [hlen]; exact hle) htail
      rw [htake] at hname
      rw [wireName, List.length_append, List.length_cons]
      have hnext : p + (label.length + 1 + (wireName labels).length) =
          p + 1 + label.length + (wireName labels).length := by omega
      rw [hnext]
      exact hname

/-- Every name the decoder returns is uncompressed. -/
theorem NameAt.wireName {next : Nat} (h : NameAt data offset p n next) : WireName n := by
  induction h with
  | root _ => exact ⟨[], labelsOk_nil, rfl⟩
  | @label p byte n next _ hzero hlen hfit _ ih =>
      obtain ⟨labels, hok, rfl⟩ := ih
      have hlabel : ((data.drop (p + 1)).take byte.toNat).length = byte.toNat := by
        rw [List.length_take, List.length_drop]
        omega
      refine ⟨(data.drop (p + 1)).take byte.toNat :: labels, ?_, ?_⟩
      · refine labelsOk_cons.mpr ⟨⟨fun hnil => hzero ?_, hlabel.le.trans hlen⟩, hok⟩
        rw [hnil, List.length_nil] at hlabel
        exact UInt8.toNat_inj.mp hlabel.symm
      · rw [Dns.wireName, hlabel, UInt8.ofNat_toNat]
  | pointer _ _ _ _ _ ih => exact ih

theorem decodeDomainName_of_standsAt (hn : WireName n) (h : StandsAt data p n) :
    decodeDomainName data p = .ok (n, p + n.length) :=
  decodeDomainName_eq_ok.mpr (nameAt_of_standsAt hn h)

end Names

/-! ### The layouts -/

/-- The types `parse_rdata` knows. -/
def knownTypes : List UInt16 := [1, 28, 5, 2, 12, 15, 6, 16, 33, 46, 48, 43, 47]

/-- `RdataLayout rtype bytes parsed`: an RDATA of the type, and what it says. -/
inductive RdataLayout : UInt16 → Bytes → RData → Prop where
  | a (ip : Ipv4Addr) : RdataLayout 1 [ip.a, ip.b, ip.c, ip.d] (.a ip)
  | aaaa (ip : Ipv6Addr) : RdataLayout 28 ip.octets (.aaaa ip)
  | cname {n : Bytes} : WireName n → RdataLayout 5 n (.cname n)
  | ns {n : Bytes} : WireName n → RdataLayout 2 n (.ns n)
  | ptr {n : Bytes} : WireName n → RdataLayout 12 n (.ptr n)
  | mx {preference : UInt16} {exchange : Bytes} : WireName exchange →
      RdataLayout 15 (u16ToBeBytes preference ++ exchange) (.mx preference exchange)
  | soa {s : Soa} : WireName s.mname → WireName s.rname →
      RdataLayout 6 (s.mname ++ s.rname ++ u32ToBeBytes s.serial ++ u32ToBeBytes s.refresh ++
        u32ToBeBytes s.retry ++ u32ToBeBytes s.expire ++ u32ToBeBytes s.minimum) (.soa s)
  | txt {strings : List Bytes} : (∀ s ∈ strings, s.length ≤ 255 ∧ validUtf8 s = true) →
      RdataLayout 16 (strings.flatMap fun s => UInt8.ofNat s.length :: s) (.txt strings)
  | srv {priority weight port : UInt16} {target : Bytes} : WireName target →
      RdataLayout 33 (u16ToBeBytes priority ++ u16ToBeBytes weight ++ u16ToBeBytes port ++ target)
        (.srv priority weight port target)
  | rrsig {r : Rrsig} : WireName r.signerName →
      RdataLayout 46 (u16ToBeBytes r.typeCovered ++ [r.algorithm, r.labels] ++
        u32ToBeBytes r.originalTtl ++ u32ToBeBytes r.signatureExpiration ++
        u32ToBeBytes r.signatureInception ++ u16ToBeBytes r.keyTag ++ r.signerName ++ r.signature)
        (.rrsig r)
  | dnskey (k : Dnskey) :
      RdataLayout 48 (u16ToBeBytes k.flags ++ [k.protocol, k.algorithm] ++ k.publicKey) (.dnskey k)
  | ds (d : Ds) :
      RdataLayout 43 (u16ToBeBytes d.keyTag ++ [d.algorithm, d.digestType] ++ d.digest) (.ds d)
  | nsec {nextDomain typeBitMaps : Bytes} : WireName nextDomain →
      RdataLayout 47 (nextDomain ++ typeBitMaps) (.nsec nextDomain typeBitMaps)
  | other {rtype : UInt16} {bytes : Bytes} : rtype ∉ knownTypes → bytes.length ≤ 65535 →
      RdataLayout rtype bytes (.unknown bytes)

theorem RdataLayout.decompressedRdata_eq {rtype : UInt16} {bytes : Bytes} {p : RData}
    (h : RdataLayout rtype bytes p) : decompressedRdata p = bytes := by
  cases h <;> rfl

/-! ### A layout is read the same way everywhere -/

section OfLayout

variable {msg : Bytes} {off : Nat}

theorem parseNameRdata_of_wireName {n : Bytes} (hn : WireName n) (h : StandsAt msg off n)
    (ctor : Bytes → RData) : parseNameRdata n msg off ctor = .ok (some (ctor n)) := by
  have hne : n.isEmpty = false := List.isEmpty_eq_false_iff.mpr hn.ne_nil
  simp [parseNameRdata, hne, decodeDomainName_of_standsAt hn h]

theorem parseMxRdata_of_layout {preference : UInt16} {exchange : Bytes} (hn : WireName exchange)
    (h : StandsAt msg off (u16ToBeBytes preference ++ exchange)) :
    parseMxRdata (u16ToBeBytes preference ++ exchange) msg off =
      .ok (some (.mx preference exchange)) := by
  have hlen : ¬ (u16ToBeBytes preference ++ exchange).length < 3 := by
    have := List.length_pos_iff.mpr hn.ne_nil
    rw [List.length_append, length_u16ToBeBytes]
    omega
  have hpref := (standsAt_append.mp (standsAt_self (u16ToBeBytes preference ++ exchange))).1
  have hname := decodeDomainName_of_standsAt hn (standsAt_append.mp h).2
  rw [length_u16ToBeBytes] at hname
  rw [parseMxRdata, if_neg hlen, hpref.readU16, Outcome.ok_bind, hname]
  rfl

theorem parseSrvRdata_of_layout {priority weight port : UInt16} {target : Bytes}
    (hn : WireName target)
    (h : StandsAt msg off
      (u16ToBeBytes priority ++ u16ToBeBytes weight ++ u16ToBeBytes port ++ target)) :
    parseSrvRdata (u16ToBeBytes priority ++ u16ToBeBytes weight ++ u16ToBeBytes port ++ target)
      msg off = .ok (some (.srv priority weight port target)) := by
  have hself := standsAt_self
    (u16ToBeBytes priority ++ u16ToBeBytes weight ++ u16ToBeBytes port ++ target)
  have hlen : ¬ (u16ToBeBytes priority ++ u16ToBeBytes weight ++ u16ToBeBytes port ++
      target).length < 7 := by
    have := List.length_pos_iff.mpr hn.ne_nil
    simp only [List.length_append, length_u16ToBeBytes]
    omega
  simp only [standsAt_append, List.length_append, length_u16ToBeBytes, Nat.zero_add,
    Nat.reduceAdd] at h hself
  obtain ⟨⟨⟨hpriority, hweight⟩, hport⟩, _⟩ := hself
  have hname := decodeDomainName_of_standsAt hn h.2
  rw [parseSrvRdata, if_neg hlen, hpriority.readU16, Outcome.ok_bind, hweight.readU16,
    Outcome.ok_bind, hport.readU16, Outcome.ok_bind, hname]
  rfl

theorem parseSoaRdata_of_layout {s : Soa} (hm : WireName s.mname) (hr : WireName s.rname)
    (h : StandsAt msg off (s.mname ++ s.rname ++ u32ToBeBytes s.serial ++ u32ToBeBytes s.refresh ++
      u32ToBeBytes s.retry ++ u32ToBeBytes s.expire ++ u32ToBeBytes s.minimum)) :
    parseSoaRdata (s.mname ++ s.rname ++ u32ToBeBytes s.serial ++ u32ToBeBytes s.refresh ++
      u32ToBeBytes s.retry ++ u32ToBeBytes s.expire ++ u32ToBeBytes s.minimum) msg off =
        .ok (some (.soa s)) := by
  have hself := standsAt_self (s.mname ++ s.rname ++ u32ToBeBytes s.serial ++
    u32ToBeBytes s.refresh ++ u32ToBeBytes s.retry ++ u32ToBeBytes s.expire ++
    u32ToBeBytes s.minimum)
  have hlen : ¬ s.mname.length + s.rname.length + 20 > (s.mname ++ s.rname ++
      u32ToBeBytes s.serial ++ u32ToBeBytes s.refresh ++ u32ToBeBytes s.retry ++
      u32ToBeBytes s.expire ++ u32ToBeBytes s.minimum).length := by
    simp only [List.length_append, length_u32ToBeBytes]
    omega
  simp only [standsAt_append, List.length_append, length_u32ToBeBytes, Nat.zero_add,
    Nat.add_assoc, Nat.reduceAdd] at h hself
  obtain ⟨⟨⟨⟨⟨_, hserial⟩, hrefresh⟩, hretry⟩, hexpire⟩, hminimum⟩ := hself
  have hmname := decodeDomainName_of_standsAt hm h.1.1.1.1.1.1
  have hrname := decodeDomainName_of_standsAt hr h.1.1.1.1.1.2
  have hstart : off + s.mname.length + s.rname.length - off = s.mname.length + s.rname.length := by
    omega
  rw [parseSoaRdata, hmname, Outcome.attempt_ok, Outcome.ok_bind]
  dsimp only
  rw [hrname, Outcome.attempt_ok, Outcome.ok_bind]
  dsimp only
  rw [checkedSub_of_le (by omega), hstart, Outcome.ok_bind, if_neg hlen]
  simp only [Nat.add_assoc]
  rw [hserial.readU32, Outcome.ok_bind, hrefresh.readU32, Outcome.ok_bind, hretry.readU32,
    Outcome.ok_bind, hexpire.readU32, Outcome.ok_bind, hminimum.readU32]
  rfl

/-- The 18 bytes before the name of the signer. -/
def rrsigHead (r : Rrsig) : Bytes :=
  u16ToBeBytes r.typeCovered ++ [r.algorithm, r.labels] ++ u32ToBeBytes r.originalTtl ++
    u32ToBeBytes r.signatureExpiration ++ u32ToBeBytes r.signatureInception ++
    u16ToBeBytes r.keyTag

theorem length_rrsigHead (r : Rrsig) : (rrsigHead r).length = 18 := by
  simp [rrsigHead, length_u16ToBeBytes, length_u32ToBeBytes]

/-- The fields are where the parser looks for them. -/
theorem rrsigHead_fields {data : Bytes} {r : Rrsig} (h : StandsAt data 0 (rrsigHead r)) :
    (readU16 data 0 : DnsResult UInt16) = .ok r.typeCovered ∧
      (index data 2 : DnsResult UInt8) = .ok r.algorithm ∧
      (index data 3 : DnsResult UInt8) = .ok r.labels ∧
      (readU32 data 4 : DnsResult UInt32) = .ok r.originalTtl ∧
      (readU32 data 8 : DnsResult UInt32) = .ok r.signatureExpiration ∧
      (readU32 data 12 : DnsResult UInt32) = .ok r.signatureInception ∧
      (readU16 data 16 : DnsResult UInt16) = .ok r.keyTag := by
  simp only [rrsigHead, standsAt_append, standsAt_cons, List.length_append, List.length_cons,
    List.length_nil, length_u16ToBeBytes, length_u32ToBeBytes, Nat.zero_add, Nat.reduceAdd] at h
  obtain ⟨⟨⟨⟨⟨hcovered, halgorithm, hlabels, _⟩, httl⟩, hexpiration⟩, hinception⟩, htag⟩ := h
  exact ⟨hcovered.readU16, index_eq_ok.mpr halgorithm, index_eq_ok.mpr hlabels, httl.readU32,
    hexpiration.readU32, hinception.readU32, htag.readU16⟩

theorem parseRrsigRdata_of_layout {r : Rrsig} (hn : WireName r.signerName)
    (h : StandsAt msg off (rrsigHead r ++ r.signerName ++ r.signature)) :
    parseRrsigRdata (rrsigHead r ++ r.signerName ++ r.signature) msg off =
      .ok (some (.rrsig r)) := by
  have hhead := length_rrsigHead r
  have hself := standsAt_self (rrsigHead r ++ r.signerName ++ r.signature)
  obtain ⟨hcovered, halgorithm, hlabels, httl, hexpiration, hinception, htag⟩ :=
    rrsigHead_fields (standsAt_append.mp (standsAt_append.mp hself).1).1
  have hname := decodeDomainName_of_standsAt hn (standsAt_append.mp (standsAt_append.mp h).1).2
  rw [hhead] at hname
  have hsize : (rrsigHead r ++ r.signerName).length = 18 + r.signerName.length := by
    rw [List.length_append, hhead]
  have hlength : (rrsigHead r ++ r.signerName ++ r.signature).length =
      18 + r.signerName.length + r.signature.length := by
    rw [List.length_append, hsize]
  have hdrop : (rrsigHead r ++ r.signerName ++ r.signature).drop (18 + r.signerName.length) =
      r.signature := List.drop_left' hsize
  have hstart : off + 18 + r.signerName.length - off = 18 + r.signerName.length := by omega
  have hfits : ¬ 18 + r.signerName.length >
      (rrsigHead r ++ r.signerName ++ r.signature).length := by omega
  rw [parseRrsigRdata, if_neg (by omega), hcovered, Outcome.ok_bind, halgorithm, Outcome.ok_bind,
    hlabels, Outcome.ok_bind, httl, Outcome.ok_bind, hexpiration, Outcome.ok_bind, hinception,
    Outcome.ok_bind, htag, Outcome.ok_bind, hname, Outcome.attempt_ok, Outcome.ok_bind]
  dsimp only
  rw [checkedSub_of_le (by omega), hstart, Outcome.ok_bind, if_neg hfits,
    sliceFrom_of_le (by omega), hdrop]
  rfl

theorem parseNsecRdata_of_layout {nextDomain typeBitMaps : Bytes} (hn : WireName nextDomain)
    (h : StandsAt msg off (nextDomain ++ typeBitMaps)) :
    parseNsecRdata (nextDomain ++ typeBitMaps) msg off =
      .ok (some (.nsec nextDomain typeBitMaps)) := by
  have hname := decodeDomainName_of_standsAt hn (standsAt_append.mp h).1
  have hfits : nextDomain.length ≤ (nextDomain ++ typeBitMaps).length := by
    rw [List.length_append]
    omega
  rw [parseNsecRdata, hname, Outcome.attempt_ok, Outcome.ok_bind]
  dsimp only
  rw [checkedSub_of_le (Nat.le_add_right _ _), Nat.add_sub_cancel_left, Outcome.ok_bind,
    sliceFrom_of_le hfits, List.drop_left]
  rfl

theorem parseDnskeyRdata_of_layout (k : Dnskey) :
    parseDnskeyRdata (u16ToBeBytes k.flags ++ [k.protocol, k.algorithm] ++ k.publicKey) =
      .ok (some (.dnskey k)) := by
  have hself := standsAt_self (u16ToBeBytes k.flags ++ [k.protocol, k.algorithm] ++ k.publicKey)
  have hflags := (standsAt_append.mp (standsAt_append.mp hself).1).1
  have hlen : 4 ≤ (u16ToBeBytes k.flags ++ [k.protocol, k.algorithm] ++ k.publicKey).length :=
    Nat.le_add_left 4 _
  rw [parseDnskeyRdata, if_neg (Nat.not_lt.mpr hlen), hflags.readU16, Outcome.ok_bind,
    sliceFrom_of_le hlen]
  rfl

theorem parseDsRdata_of_layout (d : Ds) :
    parseDsRdata (u16ToBeBytes d.keyTag ++ [d.algorithm, d.digestType] ++ d.digest) =
      .ok (some (.ds d)) := by
  have hself := standsAt_self (u16ToBeBytes d.keyTag ++ [d.algorithm, d.digestType] ++ d.digest)
  have htag := (standsAt_append.mp (standsAt_append.mp hself).1).1
  have hlen : 4 ≤ (u16ToBeBytes d.keyTag ++ [d.algorithm, d.digestType] ++ d.digest).length :=
    Nat.le_add_left 4 _
  rw [parseDsRdata, if_neg (Nat.not_lt.mpr hlen), htag.readU16, Outcome.ok_bind,
    sliceFrom_of_le hlen]
  rfl

/-- The loop keeps the character-strings that are text. -/
theorem txtParts_flatMap {strings : List Bytes} (hs : ∀ s ∈ strings, s.length ≤ 255) {fuel : Nat}
    (hfuel : (strings.flatMap fun s => UInt8.ofNat s.length :: s).length ≤ fuel) :
    txtParts fuel (strings.flatMap fun s => UInt8.ofNat s.length :: s) =
      some (strings.filter validUtf8) := by
  induction strings generalizing fuel with
  | nil => cases fuel <;> rfl
  | cons s strings ih =>
      obtain ⟨hlen, hrest⟩ := List.forall_mem_cons.mp hs
      have hbyte : (UInt8.ofNat s.length).toNat = s.length := by
        rw [UInt8.toNat_ofNat']
        omega
      rw [List.flatMap_cons, List.cons_append] at hfuel ⊢
      cases fuel with
      | zero => exact absurd hfuel (by simp)
      | succ fuel =>
          have hroom : ¬ (UInt8.ofNat s.length).toNat >
              (s ++ strings.flatMap fun s => UInt8.ofNat s.length :: s).length := by
            rw [hbyte, List.length_append]
            omega
          rw [List.length_cons, List.length_append] at hfuel
          rw [txtParts, if_neg hroom, hbyte, List.drop_left, List.take_left,
            ih hrest (by omega), List.filter_cons]

/-- **An RDATA of a layout is read the same way wherever it stands.** -/
theorem parseRdata_of_layout {rtype : UInt16} {rdata : Bytes} {p : RData}
    (hlayout : RdataLayout rtype rdata p) (h : StandsAt msg off rdata) :
    parseRdata rtype rdata msg off = .ok (some p) := by
  cases hlayout with
  | a ip => rfl
  | aaaa ip => exact dif_pos ip.size
  | cname hn => exact parseNameRdata_of_wireName hn h .cname
  | ns hn => exact parseNameRdata_of_wireName hn h .ns
  | ptr hn => exact parseNameRdata_of_wireName hn h .ptr
  | mx hn => exact parseMxRdata_of_layout hn h
  | soa hm hr => exact parseSoaRdata_of_layout hm hr h
  | txt hs =>
      change parseTxtRdata _ = _
      rw [parseTxtRdata, txtParts_flatMap (fun s hs' => (hs s hs').1) (Nat.le_refl _),
        List.filter_eq_self.mpr fun s hs' => (hs s hs').2]
      rfl
  | srv hn => exact parseSrvRdata_of_layout hn h
  | rrsig hn => exact parseRrsigRdata_of_layout hn h
  | dnskey k => exact parseDnskeyRdata_of_layout k
  | ds d => exact parseDsRdata_of_layout d
  | nsec hn => exact parseNsecRdata_of_layout hn h
  | other htype hlen =>
      simp only [knownTypes, List.mem_cons, List.not_mem_nil, or_false, not_or] at htype
      simp [parseRdata, htype, hlen]

end OfLayout

/-! ### What a parser has read -/

/-- What the parser of a type has seen when it returns a form: names of the grammar
at the places where it looks for them, and the rest inside the RDATA. -/
inductive ReadsAs (rdata msg : Bytes) (off : Nat) : UInt16 → RData → Prop where
  | a (ip : Ipv4Addr) : rdata.length = 4 → ReadsAs rdata msg off 1 (.a ip)
  | aaaa (ip : Ipv6Addr) : rdata.length = 16 → ReadsAs rdata msg off 28 (.aaaa ip)
  | cname {n : Bytes} {next : Nat} : 0 < rdata.length → NameAt msg off off n next →
      ReadsAs rdata msg off 5 (.cname n)
  | ns {n : Bytes} {next : Nat} : 0 < rdata.length → NameAt msg off off n next →
      ReadsAs rdata msg off 2 (.ns n)
  | ptr {n : Bytes} {next : Nat} : 0 < rdata.length → NameAt msg off off n next →
      ReadsAs rdata msg off 12 (.ptr n)
  | mx {preference : UInt16} {n : Bytes} {next : Nat} : 3 ≤ rdata.length →
      NameAt msg (off + 2) (off + 2) n next → ReadsAs rdata msg off 15 (.mx preference n)
  | soa {s : Soa} {e next : Nat} : NameAt msg off off s.mname e → NameAt msg e e s.rname next →
      next + 20 ≤ off + rdata.length → ReadsAs rdata msg off 6 (.soa s)
  | txt {strings : List Bytes} : (∀ s ∈ strings, s.length ≤ 255 ∧ validUtf8 s = true) →
      (strings.flatMap fun s => UInt8.ofNat s.length :: s).length ≤ rdata.length →
      ReadsAs rdata msg off 16 (.txt strings)
  | srv {priority weight port : UInt16} {n : Bytes} {next : Nat} : 7 ≤ rdata.length →
      NameAt msg (off + 6) (off + 6) n next →
      ReadsAs rdata msg off 33 (.srv priority weight port n)
  | rrsig {r : Rrsig} {next : Nat} : 18 ≤ rdata.length →
      NameAt msg (off + 18) (off + 18) r.signerName next → next ≤ off + rdata.length →
      r.signature = rdata.drop (next - off) → ReadsAs rdata msg off 46 (.rrsig r)
  | dnskey {k : Dnskey} : 4 ≤ rdata.length → k.publicKey = rdata.drop 4 →
      ReadsAs rdata msg off 48 (.dnskey k)
  | ds {d : Ds} : 4 ≤ rdata.length → d.digest = rdata.drop 4 → ReadsAs rdata msg off 43 (.ds d)
  | nsec {n : Bytes} {next : Nat} : NameAt msg off off n next → next ≤ off + rdata.length →
      ReadsAs rdata msg off 47 (.nsec n (rdata.drop (next - off)))
  | other {rtype : UInt16} : rtype ∉ knownTypes → rdata.length ≤ 65535 →
      ReadsAs rdata msg off rtype (.unknown rdata)

section Reads

variable {rdata msg : Bytes} {off : Nat} {p : RData}

/-- A parser that returns a form has read the names on its way to it. -/
theorem name_of_attempt {k : Except DnsError (Bytes × Nat) → DnsResult (Option RData)}
    (h : ((decodeDomainName msg off).attempt >>= k) = .ok (some p))
    (hk : ∀ e, k (.error e) = .ok none) :
    ∃ n e, NameAt msg off off n e ∧ k (.ok (n, e)) = .ok (some p) := by
  rcases decodeDomainName_cases msg off with ⟨n, e, hd, hn, _⟩ | ⟨err, hd, _⟩ | ⟨hd, _⟩
  · rw [hd, Outcome.attempt_ok, Outcome.ok_bind] at h
    exact ⟨n, e, hn, h⟩
  · rw [hd, Outcome.attempt_err, Outcome.ok_bind, hk] at h
    cases h
  · rw [hd] at h
    cases h

theorem parseNameRdata_eq_some {ctor : Bytes → RData}
    (h : parseNameRdata rdata msg off ctor = .ok (some p)) :
    ∃ n next, 0 < rdata.length ∧ NameAt msg off off n next ∧ p = ctor n := by
  unfold parseNameRdata at h
  split at h
  · cases h
  rename_i hne
  obtain ⟨n, e, hn, h⟩ := name_of_attempt h fun _ => rfl
  cases h
  exact ⟨n, e, List.length_pos_iff.mpr (by simpa using hne), hn, rfl⟩

theorem parseMxRdata_eq_some (h : parseMxRdata rdata msg off = .ok (some p)) :
    ReadsAs rdata msg off 15 p := by
  unfold parseMxRdata at h
  split at h
  · cases h
  rename_i hlen
  obtain ⟨preference, _, h⟩ := Outcome.bind_eq_ok.mp h
  obtain ⟨n, e, hn, h⟩ := name_of_attempt h fun _ => rfl
  cases h
  exact .mx (Nat.le_of_not_lt hlen) hn

theorem parseSrvRdata_eq_some (h : parseSrvRdata rdata msg off = .ok (some p)) :
    ReadsAs rdata msg off 33 p := by
  unfold parseSrvRdata at h
  split at h
  · cases h
  rename_i hlen
  obtain ⟨priority, _, h⟩ := Outcome.bind_eq_ok.mp h
  obtain ⟨weight, _, h⟩ := Outcome.bind_eq_ok.mp h
  obtain ⟨port, _, h⟩ := Outcome.bind_eq_ok.mp h
  obtain ⟨n, e, hn, h⟩ := name_of_attempt h fun _ => rfl
  cases h
  exact .srv (Nat.le_of_not_lt hlen) hn

theorem parseSoaRdata_eq_some (h : parseSoaRdata rdata msg off = .ok (some p)) :
    ReadsAs rdata msg off 6 p := by
  obtain ⟨mname, e, hm, h⟩ := name_of_attempt h fun _ => rfl
  obtain ⟨rname, e', hr, h⟩ := name_of_attempt h fun _ => rfl
  obtain ⟨dataStart, hstart, h⟩ := Outcome.bind_eq_ok.mp h
  obtain ⟨hle, rfl⟩ := checkedSub_eq_ok hstart
  split at h
  · cases h
  rename_i hfit
  obtain ⟨serial, _, h⟩ := Outcome.bind_eq_ok.mp h
  obtain ⟨refresh, _, h⟩ := Outcome.bind_eq_ok.mp h
  obtain ⟨retry, _, h⟩ := Outcome.bind_eq_ok.mp h
  obtain ⟨expire, _, h⟩ := Outcome.bind_eq_ok.mp h
  obtain ⟨minimum, _, h⟩ := Outcome.bind_eq_ok.mp h
  cases h
  exact .soa hm hr (by omega)

theorem parseRrsigRdata_eq_some (h : parseRrsigRdata rdata msg off = .ok (some p)) :
    ReadsAs rdata msg off 46 p := by
  unfold parseRrsigRdata at h
  split at h
  · cases h
  rename_i hlen
  obtain ⟨typeCovered, _, h⟩ := Outcome.bind_eq_ok.mp h
  obtain ⟨algorithm, _, h⟩ := Outcome.bind_eq_ok.mp h
  obtain ⟨labels, _, h⟩ := Outcome.bind_eq_ok.mp h
  obtain ⟨originalTtl, _, h⟩ := Outcome.bind_eq_ok.mp h
  obtain ⟨expiration, _, h⟩ := Outcome.bind_eq_ok.mp h
  obtain ⟨inception, _, h⟩ := Outcome.bind_eq_ok.mp h
  obtain ⟨keyTag, _, h⟩ := Outcome.bind_eq_ok.mp h
  obtain ⟨n, e, hn, h⟩ := name_of_attempt h fun _ => rfl
  obtain ⟨sigStart, hstart, h⟩ := Outcome.bind_eq_ok.mp h
  obtain ⟨hle, rfl⟩ := checkedSub_eq_ok hstart
  split at h
  · cases h
  rename_i hfit
  obtain ⟨signature, hsig, h⟩ := Outcome.bind_eq_ok.mp h
  cases h
  exact .rrsig (Nat.le_of_not_lt hlen) hn (by omega) (sliceFrom_eq_ok hsig).2

theorem parseNsecRdata_eq_some (h : parseNsecRdata rdata msg off = .ok (some p)) :
    ReadsAs rdata msg off 47 p := by
  obtain ⟨n, e, hn, h⟩ := name_of_attempt h fun _ => rfl
  obtain ⟨bitmapsStart, hstart, h⟩ := Outcome.bind_eq_ok.mp h
  obtain ⟨hle, rfl⟩ := checkedSub_eq_ok hstart
  obtain ⟨typeBitMaps, hmaps, h⟩ := Outcome.bind_eq_ok.mp h
  obtain ⟨hfit, rfl⟩ := sliceFrom_eq_ok hmaps
  cases h
  exact .nsec hn (by omega)

theorem parseARdata_eq_some (h : parseARdata rdata = .ok (some p)) : ReadsAs rdata msg off 1 p := by
  unfold parseARdata at h
  split at h
  · rename_i hlen
    obtain ⟨a, _, h⟩ := Outcome.bind_eq_ok.mp h
    obtain ⟨b, _, h⟩ := Outcome.bind_eq_ok.mp h
    obtain ⟨c, _, h⟩ := Outcome.bind_eq_ok.mp h
    obtain ⟨d, _, h⟩ := Outcome.bind_eq_ok.mp h
    cases h
    exact .a _ hlen
  · cases h

theorem parseAaaaRdata_eq_some (h : parseAaaaRdata rdata = .ok (some p)) :
    ReadsAs rdata msg off 28 p := by
  unfold parseAaaaRdata at h
  split at h
  · rename_i hlen
    cases h
    exact .aaaa _ hlen
  · cases h

theorem parseDnskeyRdata_eq_some (h : parseDnskeyRdata rdata = .ok (some p)) :
    ReadsAs rdata msg off 48 p := by
  unfold parseDnskeyRdata at h
  split at h
  · cases h
  rename_i hlen
  obtain ⟨flags, _, h⟩ := Outcome.bind_eq_ok.mp h
  obtain ⟨protocol, _, h⟩ := Outcome.bind_eq_ok.mp h
  obtain ⟨algorithm, _, h⟩ := Outcome.bind_eq_ok.mp h
  obtain ⟨publicKey, hkey, h⟩ := Outcome.bind_eq_ok.mp h
  cases h
  exact .dnskey (Nat.le_of_not_lt hlen) (sliceFrom_eq_ok hkey).2

theorem parseDsRdata_eq_some (h : parseDsRdata rdata = .ok (some p)) :
    ReadsAs rdata msg off 43 p := by
  unfold parseDsRdata at h
  split at h
  · cases h
  rename_i hlen
  obtain ⟨keyTag, _, h⟩ := Outcome.bind_eq_ok.mp h
  obtain ⟨algorithm, _, h⟩ := Outcome.bind_eq_ok.mp h
  obtain ⟨digestType, _, h⟩ := Outcome.bind_eq_ok.mp h
  obtain ⟨digest, hdigest, h⟩ := Outcome.bind_eq_ok.mp h
  cases h
  exact .ds (Nat.le_of_not_lt hlen) (sliceFrom_eq_ok hdigest).2

/-- The character-strings of a TXT record are text of at most 255 bytes, and take no
more room than the RDATA. -/
theorem txtParts_eq_some {fuel : Nat} {strings : List Bytes}
    (h : txtParts fuel rdata = some strings) :
    (∀ s ∈ strings, s.length ≤ 255 ∧ validUtf8 s = true) ∧
      (strings.flatMap fun s => UInt8.ofNat s.length :: s).length ≤ rdata.length := by
  induction fuel generalizing rdata strings with
  | zero =>
      cases h
      exact ⟨fun s hs => absurd hs List.not_mem_nil, Nat.zero_le _⟩
  | succ fuel ih =>
      cases rdata with
      | nil =>
          cases h
          exact ⟨fun s hs => absurd hs List.not_mem_nil, Nat.zero_le _⟩
      | cons len rest =>
          unfold txtParts at h
          split at h
          · cases h
          split at h
          · cases h
          rename_i hroom _ parts hparts
          cases h
          obtain ⟨htext, hsize⟩ := ih hparts
          rw [List.length_drop] at hsize
          have hlt := len.toNat_lt
          split
          · rename_i hutf8
            constructor
            · refine List.forall_mem_cons.mpr ⟨⟨?_, hutf8⟩, htext⟩
              rw [List.length_take]
              omega
            · simp only [List.flatMap_cons, List.length_append, List.length_cons, List.length_take]
              omega
          · refine ⟨htext, ?_⟩
            rw [List.length_cons]
            omega

theorem parseTxtRdata_eq_some (h : parseTxtRdata rdata = .ok (some p)) :
    ReadsAs rdata msg off 16 p := by
  rw [parseTxtRdata] at h
  cases hparts : txtParts rdata.length rdata with
  | none =>
      rw [hparts] at h
      cases h
  | some strings =>
      rw [hparts] at h
      cases h
      exact .txt (txtParts_eq_some hparts).1 (txtParts_eq_some hparts).2

/-- **A parser that returns a form has read it.** -/
theorem readsAs_of_parseRdata {rtype : UInt16}
    (h : parseRdata rtype rdata msg off = .ok (some p)) : ReadsAs rdata msg off rtype p := by
  rcases parseRdata_cases rtype rdata msg off with ⟨rfl, heq⟩ | ⟨rfl, heq⟩ | ⟨rfl, heq⟩ |
    ⟨rfl, heq⟩ | ⟨rfl, heq⟩ | ⟨rfl, heq⟩ | ⟨rfl, heq⟩ | ⟨rfl, heq⟩ | ⟨rfl, heq⟩ | ⟨rfl, heq⟩ |
    ⟨rfl, heq⟩ | ⟨rfl, heq⟩ | ⟨rfl, heq⟩ | ⟨hmem, _⟩
  · exact parseARdata_eq_some (heq ▸ h)
  · exact parseAaaaRdata_eq_some (heq ▸ h)
  · obtain ⟨n, next, hlen, hn, rfl⟩ := parseNameRdata_eq_some (heq ▸ h)
    exact .cname hlen hn
  · obtain ⟨n, next, hlen, hn, rfl⟩ := parseNameRdata_eq_some (heq ▸ h)
    exact .ns hlen hn
  · obtain ⟨n, next, hlen, hn, rfl⟩ := parseNameRdata_eq_some (heq ▸ h)
    exact .ptr hlen hn
  · exact parseMxRdata_eq_some (heq ▸ h)
  · exact parseSoaRdata_eq_some (heq ▸ h)
  · exact parseTxtRdata_eq_some (heq ▸ h)
  · exact parseSrvRdata_eq_some (heq ▸ h)
  · exact parseRrsigRdata_eq_some (heq ▸ h)
  · exact parseDnskeyRdata_eq_some (heq ▸ h)
  · exact parseDsRdata_eq_some (heq ▸ h)
  · exact parseNsecRdata_eq_some (heq ▸ h)
  · have htype := hmem
    simp only [List.mem_cons, List.not_mem_nil, or_false, not_or] at htype
    simp only [parseRdata, htype, if_false] at h
    split at h
    · cases h
      exact .other hmem ‹_›
    · cases h

/-- What a parser has read, written back, has the layout of its type. -/
theorem ReadsAs.layout {rtype : UInt16} (h : ReadsAs rdata msg off rtype p) :
    RdataLayout rtype (decompressedRdata p) p := by
  cases h with
  | a ip _ => exact .a ip
  | aaaa ip _ => exact .aaaa ip
  | cname _ hn => exact .cname hn.wireName
  | ns _ hn => exact .ns hn.wireName
  | ptr _ hn => exact .ptr hn.wireName
  | mx _ hn => exact .mx hn.wireName
  | soa hm hr _ => exact .soa hm.wireName hr.wireName
  | txt htext _ => exact .txt htext
  | srv _ hn => exact .srv hn.wireName
  | rrsig _ hn _ _ => exact .rrsig hn.wireName
  | dnskey => exact .dnskey _
  | ds => exact .ds _
  | nsec hn _ => exact .nsec hn.wireName
  | other htype hlen => exact .other htype hlen

/-- **What a parser writes back has the layout of its type.** -/
theorem layout_of_parseRdata {rtype : UInt16} (h : parseRdata rtype rdata msg off = .ok (some p)) :
    RdataLayout rtype (decompressedRdata p) p := (readsAs_of_parseRdata h).layout

end Reads

/-! ### Where a rejected RDATA is read after all -/

/-- The parser of the type finds complete names at `off`, whether or not they
end inside the RDATA where it does not check. -/
inductive ReadsNames (msg : Bytes) (rtype : UInt16) (rdlen off : Nat) : Prop where
  | whole {n : Bytes} {next : Nat} : rtype = 5 ∨ rtype = 2 ∨ rtype = 12 → 0 < rdlen →
      NameAt msg off off n next → ReadsNames msg rtype rdlen off
  | mx {n : Bytes} {next : Nat} : rtype = 15 → 3 ≤ rdlen →
      NameAt msg (off + 2) (off + 2) n next → ReadsNames msg rtype rdlen off
  | soa {mname rname : Bytes} {e next : Nat} : rtype = 6 → NameAt msg off off mname e →
      NameAt msg e e rname next → next + 20 ≤ off + rdlen → ReadsNames msg rtype rdlen off
  | srv {n : Bytes} {next : Nat} : rtype = 33 → 7 ≤ rdlen →
      NameAt msg (off + 6) (off + 6) n next → ReadsNames msg rtype rdlen off
  | rrsig {n : Bytes} {next : Nat} : rtype = 46 → 18 ≤ rdlen →
      NameAt msg (off + 18) (off + 18) n next → next ≤ off + rdlen →
      ReadsNames msg rtype rdlen off
  | nsec {n : Bytes} {next : Nat} : rtype = 47 → NameAt msg off off n next →
      ReadsNames msg rtype rdlen off

theorem readsNames_iff {msg : Bytes} {rtype : UInt16} {rdlen off : Nat} :
    ReadsNames msg rtype rdlen off ↔
      ((rtype = 5 ∨ rtype = 2 ∨ rtype = 12) ∧ 0 < rdlen ∧ ∃ n next, NameAt msg off off n next) ∨
      (rtype = 15 ∧ 3 ≤ rdlen ∧ ∃ n next, NameAt msg (off + 2) (off + 2) n next) ∨
      (rtype = 6 ∧ ∃ mname e rname next, NameAt msg off off mname e ∧ NameAt msg e e rname next ∧
        next + 20 ≤ off + rdlen) ∨
      (rtype = 33 ∧ 7 ≤ rdlen ∧ ∃ n next, NameAt msg (off + 6) (off + 6) n next) ∨
      (rtype = 46 ∧ 18 ≤ rdlen ∧ ∃ n next, NameAt msg (off + 18) (off + 18) n next ∧
        next ≤ off + rdlen) ∨
      (rtype = 47 ∧ ∃ n next, NameAt msg off off n next) := by
  constructor
  · rintro (⟨ht, hl, hn⟩ | ⟨ht, hl, hn⟩ | ⟨ht, hm, hr, hle⟩ | ⟨ht, hl, hn⟩ | ⟨ht, hl, hn, hle⟩ |
      ⟨ht, hn⟩)
    · exact .inl ⟨ht, hl, _, _, hn⟩
    · exact .inr (.inl ⟨ht, hl, _, _, hn⟩)
    · exact .inr (.inr (.inl ⟨ht, _, _, _, _, hm, hr, hle⟩))
    · exact .inr (.inr (.inr (.inl ⟨ht, hl, _, _, hn⟩)))
    · exact .inr (.inr (.inr (.inr (.inl ⟨ht, hl, _, _, hn, hle⟩))))
    · exact .inr (.inr (.inr (.inr (.inr ⟨ht, _, _, hn⟩))))
  · rintro (⟨ht, hl, n, next, hn⟩ | ⟨ht, hl, n, next, hn⟩ |
      ⟨ht, mname, e, rname, next, hm, hr, hle⟩ | ⟨ht, hl, n, next, hn⟩ |
      ⟨ht, hl, n, next, hn, hle⟩ | ⟨ht, n, next, hn⟩)
    · exact .whole ht hl hn
    · exact .mx ht hl hn
    · exact .soa ht hm hr hle
    · exact .srv ht hl hn
    · exact .rrsig ht hl hn hle
    · exact .nsec ht hn

section Rejected

variable {rdata msg : Bytes} {off : Nat}

/-- Nothing comes of a parser that starts with a name exactly when the name does
not cycle and nothing comes of what follows any name it may find. -/
theorem attempt_eq_none {k : Except DnsError (Bytes × Nat) → DnsResult (Option RData)}
    (hk : ∀ e, k (.error e) = .ok none) :
    ((decodeDomainName msg off).attempt >>= k) = .ok none ↔
      (∀ n e, NameAt msg off off n e → k (.ok (n, e)) = .ok none) ∧ ¬ NameCycles msg off := by
  rcases decodeDomainName_cases msg off with ⟨n, e, hd, hn, hc⟩ | ⟨err, hd, hno, hc⟩ | ⟨hd, hno, hc⟩
  · rw [hd, Outcome.attempt_ok, Outcome.ok_bind]
    refine ⟨fun h => ⟨fun n' e' hn' => ?_, hc⟩, fun h => h.1 n e hn⟩
    obtain ⟨rfl, rfl⟩ := hn.unique hn'
    exact h
  · rw [hd, Outcome.attempt_err, Outcome.ok_bind]
    exact ⟨fun _ => ⟨fun n e hn => absurd hn (hno n e), hc⟩, fun _ => hk err⟩
  · rw [hd]
    exact ⟨fun h => (by cases h), fun h => absurd hc h.2⟩

theorem parseNameRdata_eq_none (ctor : Bytes → RData) :
    parseNameRdata rdata msg off ctor = .ok none ↔
      ¬ (0 < rdata.length ∧ ∃ n next, NameAt msg off off n next) ∧
        ¬ (0 < rdata.length ∧ NameCycles msg off) := by
  unfold parseNameRdata
  cases rdata with
  | nil => simp
  | cons b rest =>
      rw [if_neg (by simp)]
      refine (attempt_eq_none fun _ => rfl).trans ?_
      simp

theorem parseMxRdata_eq_none :
    parseMxRdata rdata msg off = .ok none ↔
      ¬ (3 ≤ rdata.length ∧ ∃ n next, NameAt msg (off + 2) (off + 2) n next) ∧
        ¬ (3 ≤ rdata.length ∧ NameCycles msg (off + 2)) := by
  unfold parseMxRdata
  by_cases hlen : rdata.length < 3
  · simp [hlen]
  · rw [if_neg hlen, readU16_of_le (by omega), Outcome.ok_bind]
    refine (attempt_eq_none fun _ => rfl).trans ?_
    simp [Nat.not_lt.mp hlen]

theorem parseSrvRdata_eq_none :
    parseSrvRdata rdata msg off = .ok none ↔
      ¬ (7 ≤ rdata.length ∧ ∃ n next, NameAt msg (off + 6) (off + 6) n next) ∧
        ¬ (7 ≤ rdata.length ∧ NameCycles msg (off + 6)) := by
  unfold parseSrvRdata
  by_cases hlen : rdata.length < 7
  · simp [hlen]
  · rw [if_neg hlen, readU16_of_le (by omega), Outcome.ok_bind, readU16_of_le (by omega),
      Outcome.ok_bind, readU16_of_le (by omega), Outcome.ok_bind]
    refine (attempt_eq_none fun _ => rfl).trans ?_
    simp [Nat.not_lt.mp hlen]

theorem parseRrsigRdata_eq_none :
    parseRrsigRdata rdata msg off = .ok none ↔
      ¬ (18 ≤ rdata.length ∧ ∃ n next, NameAt msg (off + 18) (off + 18) n next ∧
        next ≤ off + rdata.length) ∧ ¬ (18 ≤ rdata.length ∧ NameCycles msg (off + 18)) := by
  unfold parseRrsigRdata
  by_cases hlen : rdata.length < 18
  · simp [hlen]
  rw [if_neg hlen, readU16_of_le (by omega), Outcome.ok_bind, index_eq_getD (by omega),
    Outcome.ok_bind, index_eq_getD (by omega), Outcome.ok_bind, readU32_of_le (by omega),
    Outcome.ok_bind, readU32_of_le (by omega), Outcome.ok_bind, readU32_of_le (by omega),
    Outcome.ok_bind, readU16_of_le (by omega), Outcome.ok_bind]
  refine (attempt_eq_none fun _ => rfl).trans (and_congr ?_ (by simp [Nat.not_lt.mp hlen]))
  simp only [Nat.not_lt.mp hlen, true_and, not_exists, not_and, Nat.not_le]
  refine forall_congr' fun n => forall_congr' fun e => imp_congr_right fun hn => ?_
  have hbounds := hn.bounds
  rw [checkedSub_of_le (by omega), Outcome.ok_bind]
  by_cases hfit : e - off > rdata.length
  · rw [if_pos hfit]
    exact ⟨fun _ => by omega, fun _ => rfl⟩
  · rw [if_neg hfit, sliceFrom_of_le (by omega)]
    exact ⟨fun h => (by cases h), fun h => absurd h (by omega)⟩

theorem parseNsecRdata_eq_none :
    parseNsecRdata rdata msg off = .ok none ↔
      (¬ ∃ n next, NameAt msg off off n next) ∧ ¬ NameCycles msg off := by
  refine (attempt_eq_none fun _ => rfl).trans (and_congr_left fun _ => ?_)
  simp only [not_exists]
  refine forall_congr' fun n => forall_congr' fun e => ?_
  refine ⟨fun h hn => ?_, fun h hn => absurd hn h⟩
  -- A name leads to a parsed form or to a panic.
  obtain ⟨start, _, hrest⟩ := Outcome.bind_eq_ok.mp (h hn)
  obtain ⟨bitmaps, _, hpure⟩ := Outcome.bind_eq_ok.mp hrest
  cases hpure

theorem parseSoaRdata_eq_none :
    parseSoaRdata rdata msg off = .ok none ↔
      (¬ ∃ mname e rname next, NameAt msg off off mname e ∧ NameAt msg e e rname next ∧
        next + 20 ≤ off + rdata.length) ∧
      ¬ (NameCycles msg off ∨ ∃ n next, NameAt msg off off n next ∧ NameCycles msg next) := by
  constructor
  · intro h
    obtain ⟨hnames, hcycle⟩ := (attempt_eq_none fun _ => rfl).mp h
    refine ⟨?_, ?_⟩
    · rintro ⟨mname, e, rname, next, hm, hr, hle⟩
      have hmbounds := hm.bounds
      have hrbounds := hr.bounds
      have hnone := ((attempt_eq_none fun _ => rfl).mp (hnames mname e hm)).1 rname next hr
      dsimp only at hnone
      rw [checkedSub_of_le (by omega), Outcome.ok_bind, if_neg (by omega),
        readU32_of_le (by omega), Outcome.ok_bind, readU32_of_le (by omega), Outcome.ok_bind,
        readU32_of_le (by omega), Outcome.ok_bind, readU32_of_le (by omega), Outcome.ok_bind,
        readU32_of_le (by omega)] at hnone
      cases hnone
    · rintro (hc | ⟨mname, e, hm, hc⟩)
      · exact hcycle hc
      · exact ((attempt_eq_none fun _ => rfl).mp (hnames mname e hm)).2 hc
  · rintro ⟨hnames, hcycle⟩
    refine (attempt_eq_none fun _ => rfl).mpr ⟨fun mname e hm => ?_, fun hc => hcycle (.inl hc)⟩
    refine (attempt_eq_none fun _ => rfl).mpr ⟨fun rname next hr => ?_, fun hc => ?_⟩
    · have hmbounds := hm.bounds
      have hrbounds := hr.bounds
      have hshort : ¬ next + 20 ≤ off + rdata.length := fun hle =>
        hnames ⟨mname, e, rname, next, hm, hr, hle⟩
      dsimp only
      rw [checkedSub_of_le (by omega), Outcome.ok_bind, if_pos (by omega)]
      rfl
    · exact hcycle (.inr ⟨mname, e, hm, hc⟩)

/-- The types whose RDATA has a name inside. -/
def nameTypes : List UInt16 := [5, 2, 12, 15, 6, 33, 46, 47]

theorem parseRdata_none_iff {rtype : UInt16} (htype : rtype ∈ nameTypes) :
    parseRdata rtype rdata msg off = .ok none ↔
      ¬ ReadsNames msg rtype rdata.length off ∧ ¬ RdataCycles msg rtype rdata.length off := by
  rw [readsNames_iff, rdataCycles_iff]
  simp only [nameTypes, List.mem_cons, List.not_mem_nil, or_false] at htype
  rcases htype with rfl | rfl | rfl | rfl | rfl | rfl | rfl | rfl
  · change parseNameRdata rdata msg off .cname = .ok none ↔ _
    rw [parseNameRdata_eq_none]
    simp
  · change parseNameRdata rdata msg off .ns = .ok none ↔ _
    rw [parseNameRdata_eq_none]
    simp
  · change parseNameRdata rdata msg off .ptr = .ok none ↔ _
    rw [parseNameRdata_eq_none]
    simp
  · change parseMxRdata rdata msg off = .ok none ↔ _
    rw [parseMxRdata_eq_none]
    simp
  · change parseSoaRdata rdata msg off = .ok none ↔ _
    rw [parseSoaRdata_eq_none]
    simp
  · change parseSrvRdata rdata msg off = .ok none ↔ _
    rw [parseSrvRdata_eq_none]
    simp
  · change parseRrsigRdata rdata msg off = .ok none ↔ _
    rw [parseRrsigRdata_eq_none]
    simp
  · change parseNsecRdata rdata msg off = .ok none ↔ _
    rw [parseNsecRdata_eq_none]
    simp

/-- The other parsers do not look at the message around the RDATA. -/
theorem parseRdata_of_not_nameTypes {rtype : UInt16} (htype : rtype ∉ nameTypes) (msg' : Bytes)
    (off' : Nat) : parseRdata rtype rdata msg off = parseRdata rtype rdata msg' off' := by
  simp only [nameTypes, List.mem_cons, List.not_mem_nil, or_false, not_or] at htype
  simp [parseRdata, htype]

/-- **A rejected RDATA is rejected again exactly where its bytes spell no names
and no cycle.** -/
theorem rejected_again_iff {rtype : UInt16} (h : parseRdata rtype rdata msg off = .ok none)
    (msg' : Bytes) (off' : Nat) :
    parseRdata rtype rdata msg' off' = .ok none ↔
      ¬ ReadsNames msg' rtype rdata.length off' ∧ ¬ RdataCycles msg' rtype rdata.length off' := by
  by_cases htype : rtype ∈ nameTypes
  · exact parseRdata_none_iff htype
  · rw [parseRdata_of_not_nameTypes htype msg off, h, readsNames_iff, rdataCycles_iff]
    simp only [nameTypes, List.mem_cons, List.not_mem_nil, or_false, not_or] at htype
    simp [htype]

end Rejected

end FastDns.Dns
