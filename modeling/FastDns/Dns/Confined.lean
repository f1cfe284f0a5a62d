/-
Which records are read from their own bytes (`ResourceRecord::from_bytes`).

Names are decoded against the whole message, so the bytes after a record can
take part in reading it: a name that the RDATA cuts short goes on in the next
record, and a pointer may lead to a label that spans the end of the record.
Reading is monotone in the message (`NameAt.append`): a name that is complete
in the bytes up to the end of the record is read from them whatever follows.

* **`record_confined_iff`.** A record depends on nothing behind it exactly when
  its owner name is complete there, and the names of its RDATA are complete
  there too or cannot be completed by any continuation.
* **`rdataConfined_iff_stops`.** Which names cannot be is seen from the bytes: the
  walk of labels and pointers stops at a byte that ends it.
-/

import FastDns.Dns.Grammar
import FastDns.Dns.Layout

namespace FastDns.Dns

open FastDns.Lib

/-! ### Reading a message and its continuations -/

section Continuation

variable {data rest : Bytes} {offset p : Nat} {n : Bytes} {next : Nat}

theorem getElem?_append_of_eq_some {byte : UInt8} (h : data[p]? = some byte) :
    (data ++ rest)[p]? = some byte := by
  rw [List.getElem?_append_left (List.getElem?_eq_some_iff.mp h).1]
  exact h

/-- A complete name stays what it is when the message goes on. -/
theorem NameAt.append (h : NameAt data offset p n next) (rest : Bytes) :
    NameAt (data ++ rest) offset p n next := by
  induction h with
  | root hbyte => exact .root (getElem?_append_of_eq_some hbyte)
  | label hbyte hzero hle hfit _ ih =>
      rw [← take_drop_append hfit rest]
      refine .label (getElem?_append_of_eq_some hbyte) hzero hle ?_ ih
      rw [List.length_append]
      omega
  | pointer hbyte hptr hlow hback _ ih =>
      exact .pointer (getElem?_append_of_eq_some hbyte) hptr (getElem?_append_of_eq_some hlow)
        hback ih

theorem decodeDomainName_append (h : NameAt data offset offset n next) (rest : Bytes) :
    decodeDomainName (data ++ rest) offset = decodeDomainName data offset := by
  rw [decodeDomainName_eq_ok.mpr h, decodeDomainName_eq_ok.mpr (h.append rest)]

/-- Names that are complete are parsed the same way whatever follows. -/
theorem parseRdata_append {rtype : UInt16} {rdata : Bytes} {off : Nat}
    (h : ReadsNames data rtype rdata.length off) (rest : Bytes) :
    parseRdata rtype rdata (data ++ rest) off = parseRdata rtype rdata data off := by
  cases h with
  | whole htype _ hn =>
      rcases htype with rfl | rfl | rfl
      all_goals simp [parseRdata, parseNameRdata, decodeDomainName_append hn rest]
  | mx htype _ hn =>
      subst htype
      simp [parseRdata, parseMxRdata, decodeDomainName_append hn rest]
  | soa htype hm hr _ =>
      subst htype
      simp [parseRdata, parseSoaRdata, decodeDomainName_append hm rest,
        decodeDomainName_eq_ok.mpr hm, decodeDomainName_append hr rest]
  | srv htype _ hn =>
      subst htype
      simp [parseRdata, parseSrvRdata, decodeDomainName_append hn rest]
  | rrsig htype _ hn _ =>
      subst htype
      simp [parseRdata, parseRrsigRdata, decodeDomainName_append hn rest]
  | nsec htype hn =>
      subst htype
      simp [parseRdata, parseNsecRdata, decodeDomainName_append hn rest]

/-- A record that fits keeps its fields and its RDATA when the message goes on. -/
theorem rdlenAt_append {e : Nat} (h : e + 10 ≤ data.length) (rest : Bytes) :
    rdlenAt (data ++ rest) e = rdlenAt data e := by
  rw [rdlenAt, u16At_append (by omega), rdlenAt]

theorem rawRdataAt_append {e : Nat} (h : e + 10 + rdlenAt data e ≤ data.length) :
    rawRdataAt (data ++ rest) e = rawRdataAt data e := by
  rw [rawRdataAt, rdlenAt_append (by omega), take_drop_append h, rawRdataAt]

theorem recordWith_append {e : Nat} (h : e + 10 + rdlenAt data e ≤ data.length)
    (parsed : Option RData) : recordWith (data ++ rest) n e parsed = recordWith data n e parsed := by
  simp only [recordWith, rawRdataAt_append h, u16At_append (show e + 2 ≤ data.length by omega),
    u16At_append (show e + 2 + 2 ≤ data.length by omega),
    u32At_append (show e + 4 + 4 ≤ data.length by omega),
    u16At_append (show e + 8 + 2 ≤ data.length by omega)]

end Continuation

/-! ### Names that nothing completes -/

/-- The walk from `p` stops at a byte that decides it, whatever follows `data`: one
that is no length, or a pointer that does not lead back before `offset`. -/
inductive NameStops (data : Bytes) (offset : Nat) : Nat → Prop where
  | length {p : Nat} {byte : UInt8} : data[p]? = some byte → byte &&& 0xc0 ≠ 0xc0 →
      63 < byte.toNat → NameStops data offset p
  | forward {p : Nat} {byte low : UInt8} : data[p]? = some byte → byte &&& 0xc0 = 0xc0 →
      data[p + 1]? = some low → offset ≤ pointerTarget byte low → NameStops data offset p
  | label {p : Nat} {byte : UInt8} : data[p]? = some byte → byte ≠ 0 → byte.toNat ≤ 63 →
      p + 1 + byte.toNat ≤ data.length → NameStops data offset (p + 1 + byte.toNat) →
      NameStops data offset p
  | pointer {p : Nat} {byte low : UInt8} : data[p]? = some byte → byte &&& 0xc0 = 0xc0 →
      data[p + 1]? = some low → pointerTarget byte low < offset →
      NameStops data offset (pointerTarget byte low) → NameStops data offset p

/-- The last byte is not the first one of a pointer. -/
def NoHalfPointer (data : Bytes) : Prop :=
  ∀ byte, data.getLast? = some byte → byte &&& 0xc0 ≠ 0xc0

section Stopping

variable {data n : Bytes} {offset p next : Nat}

/-- What decides the walk in `data` decides it in every continuation. -/
theorem NameStops.append (h : NameStops data offset p) (rest : Bytes) :
    NameStops (data ++ rest) offset p := by
  induction h with
  | length hbyte hptr hbig => exact .length (getElem?_append_of_eq_some hbyte) hptr hbig
  | forward hbyte hptr hlow hforward =>
      exact .forward (getElem?_append_of_eq_some hbyte) hptr (getElem?_append_of_eq_some hlow)
        hforward
  | label hbyte hzero hle hfit _ ih =>
      refine .label (getElem?_append_of_eq_some hbyte) hzero hle ?_ ih
      rw [List.length_append]
      omega
  | pointer hbyte hptr hlow hback _ ih =>
      exact .pointer (getElem?_append_of_eq_some hbyte) hptr (getElem?_append_of_eq_some hlow)
        hback ih

theorem NameStops.stops (h : NameStops data offset p) : Stops (nextPos data offset) p := by
  induction h with
  | @length p byte hbyte hptr hbig =>
      have hzero : byte ≠ 0 := by
        rintro rfl
        exact absurd hbig (by decide)
      exact stops_of_none (by simp [nextPos, hbyte, hzero, hptr, hbig])
  | forward hbyte hptr hlow hforward =>
      exact stops_of_none
        (by simp [nextPos, hbyte, ne_zero_of_and_c0 hptr, hptr, hlow, hforward])
  | label hbyte hzero hle hfit _ ih => exact stops_of_next (nextPos_label hbyte hzero hle hfit) ih
  | pointer hbyte hptr hlow hback _ ih =>
      exact stops_of_next (nextPos_pointer hbyte hptr hlow hback) ih

/-- A name that starts with a pointer is the name there. -/
theorem nameAt_target {byte low : UInt8} (hbyte : data[p]? = some byte)
    (hptr : byte &&& 0xc0 = 0xc0) (hlow : data[p + 1]? = some low)
    (h : NameAt data offset p n next) :
    pointerTarget byte low < offset ∧ ∃ next', NameAt data offset (pointerTarget byte low) n next' := by
  cases h with
  | root hroot => exact absurd (Option.some.inj (hbyte.symm.trans hroot)) (ne_zero_of_and_c0 hptr)
  | label hlen _ hle =>
      cases hbyte.symm.trans hlen
      exact absurd hptr (and_c0_ne_of_le hle)
  | pointer hfirst _ hsecond hback htarget =>
      cases hbyte.symm.trans hfirst
      cases hlow.symm.trans hsecond
      exact ⟨hback, _, htarget⟩

/-- Where the walk stops there is no name. -/
theorem NameStops.not_nameAt (h : NameStops data offset p) : ¬ NameAt data offset p n next := by
  induction h generalizing n next with
  | length hbyte hptr hbig =>
      intro hname
      cases hname with
      | root hroot =>
          cases hbyte.symm.trans hroot
          exact absurd hbig (by decide)
      | label hlen _ hle =>
          cases hbyte.symm.trans hlen
          omega
      | pointer hfirst hptr' =>
          cases hbyte.symm.trans hfirst
          exact hptr hptr'
  | forward hbyte hptr hlow hforward =>
      intro hname
      exact absurd (nameAt_target hbyte hptr hlow hname).1 (Nat.not_lt.mpr hforward)
  | label hbyte hzero hle _ _ ih =>
      intro hname
      cases hname with
      | root hroot => exact hzero (Option.some.inj (hbyte.symm.trans hroot))
      | label hlen _ _ _ hrest =>
          cases hbyte.symm.trans hlen
          exact ih hrest
      | pointer hfirst hptr =>
          cases hbyte.symm.trans hfirst
          exact and_c0_ne_of_le hle hptr
  | pointer hbyte hptr hlow _ _ ih =>
      intro hname
      obtain ⟨_, _, htarget⟩ := nameAt_target hbyte hptr hlow hname
      exact ih htarget

/-- A walk that runs out of bytes is completed by root labels. -/
theorem root_behind (hend : data.length ≤ p) :
    NameAt (data ++ List.replicate (p + 1) 0) offset p [0] (p + 1) := by
  refine .root ?_
  rw [List.getElem?_append_right hend, List.getElem?_replicate, if_pos (by omega)]

/-- A walk that stops in `data` and is completed by no continuation is decided there. -/
theorem nameStops_of_never (hhalf : NoHalfPointer data)
    (hnever : ∀ rest n next, ¬ NameAt (data ++ rest) offset p n next)
    (hstops : Stops (nextPos data offset) p) : NameStops data offset p := by
  obtain ⟨moves, hmoves⟩ := hstops
  -- The induction is on the number of labels and pointers before the walk stops.
  induction moves generalizing p with
  | zero => cases hmoves
  | succ moves ih =>
      cases hget : data[p]? with
      | none => exact absurd (root_behind (List.getElem?_eq_none_iff.mp hget)) (hnever _ _ _)
      | some byte =>
          have hat : ∀ rest : Bytes, (data ++ rest)[p]? = some byte :=
            fun rest => getElem?_append_of_eq_some hget
          by_cases hzero : byte = 0
          · exact absurd (.root (hzero ▸ hat [])) (hnever [] _ _)
          by_cases hptr : byte &&& 0xc0 = 0xc0
          · cases hlow : data[p + 1]? with
            | none =>
                have hlast : data.getLast? = some byte := by
                  have hlt := (List.getElem?_eq_some_iff.mp hget).1
                  have hge := List.getElem?_eq_none_iff.mp hlow
                  rw [List.getLast?_eq_getElem?, show data.length - 1 = p by omega, hget]
                exact absurd hptr (hhalf byte hlast)
            | some low =>
                by_cases hback : pointerTarget byte low < offset
                · refine .pointer hget hptr hlow hback (ih (fun rest n next hname => ?_) ?_)
                  · exact hnever rest _ _ (.pointer (hat rest) hptr
                      (getElem?_append_of_eq_some hlow) hback hname)
                  · rwa [walk, nextPos_pointer hget hptr hlow hback] at hmoves
                · exact .forward hget hptr hlow (Nat.le_of_not_lt hback)
          by_cases hle : byte.toNat ≤ 63
          · by_cases hfit : p + 1 + byte.toNat ≤ data.length
            · refine .label hget hzero hle hfit (ih (fun rest n next hname => ?_) ?_)
              · refine hnever rest _ _ (.label (hat rest) hzero hle ?_ hname)
                rw [List.length_append]
                omega
              · rwa [walk, nextPos_label hget hzero hle hfit] at hmoves
            · have hroot : NameAt (data ++ List.replicate (p + 1 + byte.toNat + 1) 0) offset
                  (p + 1 + byte.toNat) [0] (p + 1 + byte.toNat + 1) := root_behind (by omega)
              refine absurd (.label (hat _) hzero hle ?_ hroot) (hnever _ _ _)
              rw [List.length_append, List.length_replicate]
              omega
          · exact .length hget hptr (Nat.lt_of_not_le hle)

end Stopping

/-! ### What a record depends on -/

/-- The names of an RDATA are complete in `data`, or there is no continuation of
`data` in which they are complete or run in a circle. -/
def RdataConfined (data : Bytes) (rtype : UInt16) (rdlen off : Nat) : Prop :=
  ReadsNames data rtype rdlen off ∨
    ∀ rest, ¬ ReadsNames (data ++ rest) rtype rdlen off ∧
      ¬ RdataCycles (data ++ rest) rtype rdlen off

/-- The bytes of an RDATA before its name. -/
def fixedPart (rtype : UInt16) : Nat :=
  if rtype = 15 then 2 else if rtype = 33 then 6 else if rtype = 46 then 18 else 0

section Starts

variable {data msg : Bytes} {rtype : UInt16} {rdlen off s : Nat}

/-- Only an SOA has two names. -/
theorem RdataNameStart.eq (h : RdataNameStart msg rtype rdlen off s) (hsoa : rtype ≠ 6) :
    s = off + fixedPart rtype := by
  cases h with
  | whole htype => rcases htype with rfl | rfl | rfl <;> rfl
  | mx htype => subst htype; rfl
  | mname htype => exact absurd htype hsoa
  | rname htype => exact absurd htype hsoa
  | srv htype => subst htype; rfl
  | rrsig htype => subst htype; rfl
  | nsec htype => subst htype; rfl

/-- Where the second one starts depends on the first, so on the message. -/
theorem RdataNameStart.in_any (h : RdataNameStart msg rtype rdlen off s) (hsoa : rtype ≠ 6)
    (msg' : Bytes) : RdataNameStart msg' rtype rdlen off s := by
  cases h with
  | whole htype hlen => exact .whole htype hlen
  | mx htype hlen => exact .mx htype hlen
  | mname htype => exact absurd htype hsoa
  | rname htype => exact absurd htype hsoa
  | srv htype hlen => exact .srv htype hlen
  | rrsig htype hlen => exact .rrsig htype hlen
  | nsec htype => exact .nsec htype

/-- The other parsers, but for the one of RRSIG, take a name wherever it ends. -/
theorem readsNames_iff_start (hsoa : rtype ≠ 6) (hrrsig : rtype ≠ 46) :
    ReadsNames msg rtype rdlen off ↔
      ∃ s, RdataNameStart msg rtype rdlen off s ∧ ∃ n next, NameAt msg s s n next := by
  constructor
  · intro h
    cases h with
    | whole htype hlen hn => exact ⟨off, .whole htype hlen, _, _, hn⟩
    | mx htype hlen hn => exact ⟨off + 2, .mx htype hlen, _, _, hn⟩
    | soa htype => exact absurd htype hsoa
    | srv htype hlen hn => exact ⟨off + 6, .srv htype hlen, _, _, hn⟩
    | rrsig htype => exact absurd htype hrrsig
    | nsec htype hn => exact ⟨off, .nsec htype, _, _, hn⟩
  · rintro ⟨s, hs, n, next, hn⟩
    cases hs with
    | whole htype hlen => exact .whole htype hlen hn
    | mx htype hlen => exact .mx htype hlen hn
    | mname htype => exact absurd htype hsoa
    | rname htype => exact absurd htype hsoa
    | srv htype hlen => exact .srv htype hlen hn
    | rrsig htype => exact absurd htype hrrsig
    | nsec htype => exact .nsec htype hn

/-- **Where the parser does not check the end of its name, the bytes decide**: an
RDATA is confined exactly when its name is complete in them or stops in them. -/
theorem rdataConfined_iff_stops (hsoa : rtype ≠ 6) (hrrsig : rtype ≠ 46)
    (hhalf : NoHalfPointer data) :
    RdataConfined data rtype rdlen off ↔ ∀ s, RdataNameStart data rtype rdlen off s →
      (∃ n next, NameAt data s s n next) ∨ NameStops data s s := by
  constructor
  · rintro (hreads | hnever) s hs
    · obtain ⟨s', hs', hname⟩ := (readsNames_iff_start hsoa hrrsig).mp hreads
      obtain rfl : s' = s := (hs'.eq hsoa).trans (hs.eq hsoa).symm
      exact .inl hname
    · have hacyclic : ¬ NameCycles data s := by
        intro hcycles
        refine (hnever []).2 ⟨s, hs.in_any hsoa _, ?_⟩
        rwa [List.append_nil]
      refine .inr (nameStops_of_never hhalf (fun rest n next hn => (hnever rest).1 ?_)
        ((stops_iff_not_revisits fun _ => nextPos_lt).mpr hacyclic))
      exact (readsNames_iff_start hsoa hrrsig).mpr ⟨s, hs.in_any hsoa _, n, next, hn⟩
  · intro hall
    by_cases hreads : ReadsNames data rtype rdlen off
    · exact .inl hreads
    refine .inr fun rest => ?_
    have hstops : ∀ s, RdataNameStart (data ++ rest) rtype rdlen off s → NameStops data s s := by
      intro s hs
      have hs' := hs.in_any hsoa data
      exact (hall s hs').resolve_left fun hname =>
        hreads ((readsNames_iff_start hsoa hrrsig).mpr ⟨s, hs', hname⟩)
    constructor
    · intro hlater
      obtain ⟨s, hs, n, next, hn⟩ := (readsNames_iff_start hsoa hrrsig).mp hlater
      exact ((hstops s hs).append rest).not_nameAt hn
    · rintro ⟨s, hs, hcycles⟩
      exact hcycles.not_stops ((hstops s hs).append rest).stops

end Starts

/-- The owner name of the record at `offset` is complete in `data`, and so are
the names of its RDATA if they can be completed at all. -/
def RecordConfined (data : Bytes) (offset : Nat) : Prop :=
  ∃ n e, NameAt data offset offset n e ∧
    RdataConfined data (u16At data e) (rdlenAt data e) (e + 10)

section Records

variable {data rest : Bytes} {offset next : Nat} {r : ResourceRecord}

/-- A record that fits in `data` is read from every continuation up to its
RDATA, and the rest is up to the parser. -/
theorem record_append {n : Bytes} {e : Nat} (hn : NameAt data offset offset n e)
    (hroom : e + 10 + rdlenAt data e ≤ data.length) (rest : Bytes) :
    ResourceRecord.fromBytes (data ++ rest) offset = (do
      let parsed ← parseRdata (u16At data e) (rawRdataAt data e) (data ++ rest) (e + 10)
      .ok (recordWith data n e parsed, e + 10 + rdlenAt data e)) := by
  have hlen : e + 10 + rdlenAt (data ++ rest) e ≤ (data ++ rest).length := by
    rw [rdlenAt_append (by omega), List.length_append]
    omega
  rw [record_of_fits (hn.append rest) hlen, rawRdataAt_append hroom, rdlenAt_append (by omega),
    u16At_append (by omega)]
  simp only [recordWith_append hroom]

/-- A parser that only reads complete names, or never finds any, returns the same
in all continuations. -/
theorem parseRdata_confined {rtype : UInt16} {rdata : Bytes} {off : Nat}
    (h : RdataConfined data rtype rdata.length off) (rest rest' : Bytes) :
    parseRdata rtype rdata (data ++ rest) off = parseRdata rtype rdata (data ++ rest') off := by
  by_cases htype : rtype ∈ nameTypes
  · rcases h with hreads | hnever
    · rw [parseRdata_append hreads, parseRdata_append hreads]
    · rw [(parseRdata_none_iff htype).mpr (hnever rest),
        (parseRdata_none_iff htype).mpr (hnever rest')]
  · exact parseRdata_of_not_nameTypes htype _ _

/-- A parser that returns the same in all continuations reads only complete names
or never finds any. -/
theorem rdataConfined_of_parseRdata {rtype : UInt16} {rdata : Bytes} {off : Nat}
    {parsed : Option RData} (h : ∀ rest, parseRdata rtype rdata (data ++ rest) off = .ok parsed) :
    RdataConfined data rtype rdata.length off := by
  by_cases htype : rtype ∈ nameTypes
  · by_cases hreads : ReadsNames data rtype rdata.length off
    · exact .inl hreads
    have hnil : parseRdata rtype rdata data off = .ok parsed := by simpa using h []
    have hcycles : ¬ RdataCycles data rtype rdata.length off := by
      intro hc
      rw [parseRdata_eq_diverge.mpr hc] at hnil
      cases hnil
    rw [(parseRdata_none_iff htype).mpr ⟨hreads, hcycles⟩] at hnil
    cases hnil
    exact .inr fun rest => (parseRdata_none_iff htype).mp (h rest)
  · refine .inr fun rest => ?_
    rw [readsNames_iff, rdataCycles_iff]
    simp only [nameTypes, List.mem_cons, List.not_mem_nil, or_false, not_or] at htype
    simp [htype]

/-- The bytes up to the end of a record hold all of its fields. -/
theorem record_fits_take {e : Nat} (hroom : e + 10 + rdlenAt data e ≤ data.length) :
    e + 10 + rdlenAt (data.take (e + 10 + rdlenAt data e)) e =
      (data.take (e + 10 + rdlenAt data e)).length := by
  have hlen : (data.take (e + 10 + rdlenAt data e)).length = e + 10 + rdlenAt data e := by
    rw [List.length_take]
    omega
  have hsame := rdlenAt_append
    (show e + 10 ≤ (data.take (e + 10 + rdlenAt data e)).length by omega)
    (data.drop (e + 10 + rdlenAt data e))
  rw [List.take_append_drop] at hsame
  omega

end Records

/-- **A record is read from its own bytes exactly when its names are**: every
message that agrees up to the end of the record has the same record there, if
and only if the names in it are complete before that end or cannot be completed
by any continuation. -/
theorem record_confined_iff (d₁ : Bytes) (offset : Nat) (r : ResourceRecord) (next : Nat)
    (h : ResourceRecord.fromBytes d₁ offset = .ok (r, next)) :
    (∀ d₂, d₂.take next = d₁.take next → ResourceRecord.fromBytes d₂ offset = .ok (r, next)) ↔
      RecordConfined (d₁.take next) offset := by
  have hcont : ∀ rest, (d₁.take next ++ rest).take next = d₁.take next := by
    intro rest
    obtain ⟨n, e, parsed, _, hroom, _, _, rfl⟩ := record_eq_ok.mp h
    rw [List.take_append_of_le_length (by rw [List.length_take]; omega), List.take_take, min_self]
  constructor
  · intro hall
    obtain ⟨n, e, parsed, hn, hroom, _, _, hnext⟩ :=
      record_eq_ok.mp (hall (d₁.take next) (by rw [List.take_take, min_self]))
    refine ⟨n, e, hn, ?_⟩
    rw [← length_rawRdataAt hroom]
    have hparse : ∀ rest, parseRdata (u16At (d₁.take next) e) (rawRdataAt (d₁.take next) e)
        (d₁.take next ++ rest) (e + 10) = .ok r.parsed := by
      intro rest
      have hrun := hall (d₁.take next ++ rest) (hcont rest)
      rw [record_append hn hroom] at hrun
      obtain ⟨parsed', hparsed', hpure⟩ := Outcome.bind_eq_ok.mp hrun
      obtain ⟨hr, _⟩ := Prod.mk.inj (Outcome.ok.inj hpure)
      rw [hparsed', ← hr]
      rfl
    exact rdataConfined_of_parseRdata hparse
  · rintro ⟨n', e', hn', hconfined⟩ d₂ hagree
    obtain ⟨n, e, parsed, hn, hroom, hparsed, rfl, rfl⟩ := record_eq_ok.mp h
    have hd₁ := List.take_append_drop (e + 10 + rdlenAt d₁ e) d₁
    have hd₂ := List.take_append_drop (e + 10 + rdlenAt d₁ e) d₂
    rw [hagree] at hd₂
    have hn₁ := hn'.append (d₁.drop (e + 10 + rdlenAt d₁ e))
    rw [hd₁] at hn₁
    obtain ⟨rfl, rfl⟩ := hn.unique hn₁
    have hfit := record_fits_take hroom
    rw [← length_rawRdataAt hfit.le] at hconfined
    rw [← h, ← hd₁, ← hd₂, record_append hn' hfit.le, record_append hn' hfit.le,
      parseRdata_confined hconfined]

/-- An NS record whose two bytes of RDATA are the label `a` without an end, and
what follows it. -/
def cutNsRecord (after : Bytes) : Bytes :=
  [0, 0, 2, 0, 1, 0, 0, 0, 60, 0, 2, 1, 0x61] ++ after

/-- The bytes after the record decide which name it is read with. -/
theorem record_completed_from_behind :
    ∃ d₁ d₂ offset r next, ResourceRecord.fromBytes d₁ offset = .ok (r, next) ∧
      d₂.take next = d₁.take next ∧ ResourceRecord.fromBytes d₂ offset ≠ .ok (r, next) :=
  ⟨cutNsRecord [0], cutNsRecord [1, 0x62, 0], 0,
    ⟨[0], 2, 1, 60, 3, [1, 0x61, 0], some (.ns [1, 0x61, 0])⟩, 13, by decide +kernel⟩

/-- The same record with its name complete, before any other bytes. -/
theorem record_confined_iff_complete :
    ∃ r, ResourceRecord.fromBytes ([0, 0, 2, 0, 1, 0, 0, 0, 60, 0, 3, 1, 0x61, 0] ++ [7]) 0 =
        .ok (r, 14) ∧
      ∀ d₂, d₂.take 14 = [0, 0, 2, 0, 1, 0, 0, 0, 60, 0, 3, 1, 0x61, 0] →
        ResourceRecord.fromBytes d₂ 0 = .ok (r, 14) := by
  have hread : ResourceRecord.fromBytes
      ([0, 0, 2, 0, 1, 0, 0, 0, 60, 0, 3, 1, 0x61, 0] ++ [7]) 0 =
      .ok (⟨[0], 2, 1, 60, 3, [1, 0x61, 0], some (.ns [1, 0x61, 0])⟩, 14) := by decide +kernel
  refine ⟨_, hread, (record_confined_iff _ _ _ _ hread).mpr ⟨[0], 1, .root rfl, .inl ?_⟩⟩
  have hname : NameAt [0, 0, 2, 0, 1, 0, 0, 0, 60, 0, 3, 1, 0x61, 0] 11 11 [1, 0x61, 0] 14 :=
    .label rfl (by decide) (by decide) (by decide) (.root rfl)
  exact .whole (.inr (.inl rfl)) (by decide) hname

end FastDns.Dns
