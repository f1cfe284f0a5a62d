/-
Where the message parser goes, and when it comes back.

`QuestionAt` and `RecordAt` describe the layout of a message from its bytes
alone: after how many questions and records the parser stands at which offset.
An item is left behind only when its name is one of the grammar and its fields
fit, so both predicates stop at the first malformed item, as the parser does.

With them, the two ways in which `Message::from_bytes` can fail to return have
exact conditions: it diverges when a name it gets to cycles
(`fromBytes_eq_diverge`), and it panics when an NSEC record it gets to is cut
short (`fromBytes_eq_panic`).
-/

import FastDns.Dns.Header

namespace FastDns.Dns

open FastDns.Lib

/-! ### The layout of a message -/

/-- The number of questions the header announces. -/
def questionCount (data : Bytes) : Nat := (u16At data 4).toNat

/-- The number of records the header announces, over all three sections. -/
def recordCount (data : Bytes) : Nat :=
  (u16At data 6).toNat + (u16At data 8).toNat + (u16At data 10).toNat

/-- The RDATA length of the record whose owner name ends at `e`. -/
def rdlenAt (data : Bytes) (e : Nat) : Nat := (u16At data (e + 8)).toNat

/-- The RDATA of that record, as it stands in the message. -/
def rawRdataAt (data : Bytes) (e : Nat) : Bytes := (data.drop (e + 10)).take (rdlenAt data e)

/-- The record built from the fields at `e`. -/
def recordWith (data n : Bytes) (e : Nat) (parsed : Option RData) : ResourceRecord where
  name := n
  rtype := u16At data e
  rclass := u16At data (e + 2)
  ttl := u32At data (e + 4)
  rdlength := (storedRdata parsed (rawRdataAt data e) (u16At data (e + 8))).2
  rdata := (storedRdata parsed (rawRdataAt data e) (u16At data (e + 8))).1
  parsed

/-- After `i` well-formed questions the parser stands at `off`. -/
inductive QuestionAt (data : Bytes) : Nat → Nat → Prop where
  | first : 12 ≤ data.length → QuestionAt data 0 12
  | next {i off e : Nat} {n : Bytes} : QuestionAt data i off → i < questionCount data →
      NameAt data off off n e → e + 4 ≤ data.length → QuestionAt data (i + 1) (e + 4)

/-- At `off` stands a record whose owner name ends at `e` and whose fields and
RDATA lie inside the message. -/
def RecordFits (data : Bytes) (off e : Nat) : Prop :=
  (∃ n, NameAt data off off n e) ∧ e + 10 + rdlenAt data e ≤ data.length

/-- The RDATA of a record whose owner name ends at `e` has a cyclic name. -/
def CyclicRdata (data : Bytes) (e : Nat) : Prop :=
  RdataCycles data (u16At data e) (rdlenAt data e) (e + 10)

/-- A record whose owner name ends at `e` is an NSEC record cut short. -/
def OverrunRdata (data : Bytes) (e : Nat) : Prop :=
  NsecOverrun data (u16At data e) (rdlenAt data e) (e + 10)

/-- After all questions and `j` records the parser stands at `off`. -/
inductive RecordAt (data : Bytes) : Nat → Nat → Prop where
  | first {off : Nat} : QuestionAt data (questionCount data) off → RecordAt data 0 off
  | next {j off e : Nat} : RecordAt data j off → j < recordCount data → RecordFits data off e →
      ¬ CyclicRdata data e → ¬ OverrunRdata data e →
      RecordAt data (j + 1) (e + 10 + rdlenAt data e)

/-- The parser starts to decode a name at `s`. -/
inductive NameStart (data : Bytes) : Nat → Prop where
  | qname {i off : Nat} : QuestionAt data i off → i < questionCount data → NameStart data off
  | owner {j off : Nat} : RecordAt data j off → j < recordCount data → NameStart data off
  | embedded {j off e s : Nat} : RecordAt data j off → j < recordCount data →
      RecordFits data off e →
      RdataNameStart data (u16At data e) (rdlenAt data e) (e + 10) s → NameStart data s

/-- The parser gets to an NSEC record that is cut short. -/
def OverrunRecord (data : Bytes) : Prop :=
  ∃ j off e, RecordAt data j off ∧ j < recordCount data ∧ RecordFits data off e ∧
    OverrunRdata data e

/-! ### One question, one record -/

section Items

variable {data : Bytes} {off : Nat}

/-- The offset after an item, if it parses. -/
def itemNext {α : Type} (parse : Nat → DnsResult (α × Nat)) (off : Nat) : Option Nat :=
  match parse off with
  | .ok (_, next) => some next
  | _ => none

theorem question_ending {e : Outcome.Ending} (he : e ≠ .returned) :
    (Question.fromBytes data off).ending = e ↔ (decodeDomainName data off).ending = e := by
  unfold Question.fromBytes
  rw [Outcome.ending_bind he, or_iff_left]
  rintro ⟨⟨n, next⟩, _, hend⟩
  by_cases hfit : next + 4 > data.length
  · simp [hfit, Ne.symm he] at hend
  · have h1 : (readU16 data next : DnsResult UInt16) = .ok _ := readU16_of_le (by omega)
    have h2 : (readU16 data (next + 2) : DnsResult UInt16) = .ok _ := readU16_of_le (by omega)
    simp [hfit, h1, h2, Ne.symm he] at hend

theorem question_itemNext {next : Nat} :
    itemNext (Question.fromBytes data) off = some next ↔
      ∃ n e, NameAt data off off n e ∧ e + 4 ≤ data.length ∧ next = e + 4 := by
  unfold itemNext Question.fromBytes
  rcases decodeDomainName_cases data off with ⟨n, e, h, hn, _⟩ | ⟨err, h, hno, _⟩ | ⟨h, hno, _⟩
  · have hall : (∃ n e, NameAt data off off n e ∧ e + 4 ≤ data.length ∧ next = e + 4) ↔
        e + 4 ≤ data.length ∧ next = e + 4 := by
      constructor
      · rintro ⟨n', e', hn', hrest⟩
        exact (hn.unique hn').2 ▸ hrest
      · exact fun hrest => ⟨n, e, hn, hrest⟩
    rw [hall, h, Outcome.ok_bind]
    by_cases hfit : e + 4 > data.length
    · simp [hfit]
    · simp only [hfit, if_false]
      rw [readU16_of_le (by omega), readU16_of_le (by omega)]
      simp [Nat.le_of_not_gt hfit, eq_comm]
  · simp [h, hno]
  · simp [h, hno]

theorem length_rawRdataAt {e : Nat} (hfit : e + 10 + rdlenAt data e ≤ data.length) :
    (rawRdataAt data e).length = rdlenAt data e := by
  rw [rawRdataAt, List.length_take, List.length_drop]
  omega

/-- Once a record fits, everything depends on the parser of its RDATA. -/
theorem record_of_fits {n : Bytes} {e : Nat} (hn : NameAt data off off n e)
    (hfit : e + 10 + rdlenAt data e ≤ data.length) :
    ResourceRecord.fromBytes data off = (do
      let parsed ← parseRdata (u16At data e) (rawRdataAt data e) data (e + 10)
      .ok (recordWith data n e parsed, e + 10 + rdlenAt data e)) := by
  unfold ResourceRecord.fromBytes
  rw [decodeDomainName_eq_ok.mpr hn, Outcome.ok_bind]
  have h10 : ¬ e + 10 > data.length := by omega
  simp only [h10, if_false]
  rw [readU16_of_le (by omega), readU16_of_le (by omega), readU32_of_le (by omega),
    readU16_of_le (by omega)]
  have hroom : ¬ e + 10 + (u16At data (e + 8)).toNat > data.length := Nat.not_lt_of_le hfit
  have hslice : (slice data (e + 10) (e + 10 + (u16At data (e + 8)).toNat) : DnsResult Bytes) =
      .ok (rawRdataAt data e) := by
    rw [rdlenAt] at hfit
    rw [slice_of_le (Nat.le_add_right _ _) hfit, Nat.add_sub_cancel_left]
    rfl
  simp only [Outcome.ok_bind, hroom, if_false, hslice]
  rfl

/-- A record that does not fit, or whose owner name is malformed, is an error. -/
theorem record_of_not_fits (hcycle : ¬ NameCycles data off)
    (hfits : ∀ e, ¬ RecordFits data off e) :
    ∃ err, ResourceRecord.fromBytes data off = .err err := by
  unfold ResourceRecord.fromBytes
  rcases decodeDomainName_cases data off with ⟨n, e, h, hn, _⟩ | ⟨err, h, _⟩ | ⟨_, _, hc⟩
  · have hroom : e + 10 + rdlenAt data e > data.length :=
      Nat.lt_of_not_le fun hle => hfits e ⟨⟨n, hn⟩, hle⟩
    rw [h, Outcome.ok_bind]
    by_cases h10 : e + 10 > data.length
    · exact ⟨_, if_pos h10⟩
    · simp only [h10, if_false]
      rw [readU16_of_le (by omega), readU16_of_le (by omega), readU32_of_le (by omega),
        readU16_of_le (by omega)]
      simp only [Outcome.ok_bind]
      exact ⟨_, if_pos hroom⟩
  · exact ⟨err, by rw [h]; rfl⟩
  · exact absurd hc hcycle

theorem recordFits_unique {e e' : Nat} (h : RecordFits data off e) (h' : RecordFits data off e') :
    e = e' := by
  obtain ⟨⟨n, hn⟩, _⟩ := h
  obtain ⟨⟨n', hn'⟩, _⟩ := h'
  exact (hn.unique hn').2

theorem record_eq_diverge :
    ResourceRecord.fromBytes data off = .diverge ↔
      NameCycles data off ∨ ∃ e, RecordFits data off e ∧ CyclicRdata data e := by
  by_cases hcycle : NameCycles data off
  · have hname := (decodeDomainName_eq_diverge data off).mpr hcycle
    simp [ResourceRecord.fromBytes, hname, hcycle]
  by_cases hfits : ∃ e, RecordFits data off e
  · obtain ⟨e, hfit⟩ := hfits
    obtain ⟨⟨n, hn⟩, hroom⟩ := hfit
    have hcyc : (∃ e, RecordFits data off e ∧ CyclicRdata data e) ↔ CyclicRdata data e := by
      constructor
      · rintro ⟨e', hfit', hc⟩
        exact recordFits_unique ⟨⟨n, hn⟩, hroom⟩ hfit' ▸ hc
      · exact fun hc => ⟨e, ⟨⟨n, hn⟩, hroom⟩, hc⟩
    rw [record_of_fits hn hroom, Outcome.bind_eq_diverge, parseRdata_eq_diverge,
      length_rawRdataAt hroom, hcyc]
    simp [hcycle, CyclicRdata]
  · simp only [not_exists] at hfits
    obtain ⟨err, herr⟩ := record_of_not_fits hcycle hfits
    simp [herr, hcycle, hfits]

theorem record_eq_panic :
    ResourceRecord.fromBytes data off = .panic ↔
      ∃ e, RecordFits data off e ∧ OverrunRdata data e := by
  by_cases hcycle : NameCycles data off
  · have hname := (decodeDomainName_eq_diverge data off).mpr hcycle
    have hno : ∀ e, ¬ RecordFits data off e := by
      rintro e ⟨⟨n, hn⟩, _⟩
      rw [decodeDomainName_eq_ok.mpr hn] at hname
      cases hname
    simp [ResourceRecord.fromBytes, hname, hno]
  by_cases hfits : ∃ e, RecordFits data off e
  · obtain ⟨e, hfit⟩ := hfits
    obtain ⟨⟨n, hn⟩, hroom⟩ := hfit
    have hover : (∃ e, RecordFits data off e ∧ OverrunRdata data e) ↔ OverrunRdata data e := by
      constructor
      · rintro ⟨e', hfit', hc⟩
        exact recordFits_unique ⟨⟨n, hn⟩, hroom⟩ hfit' ▸ hc
      · exact fun hc => ⟨e, ⟨⟨n, hn⟩, hroom⟩, hc⟩
    rw [record_of_fits hn hroom, Outcome.bind_eq_panic, parseRdata_eq_panic,
      length_rawRdataAt hroom, hover]
    simp [OverrunRdata]
  · simp only [not_exists] at hfits
    obtain ⟨err, herr⟩ := record_of_not_fits hcycle hfits
    simp [herr, hfits]

theorem record_itemNext {next : Nat} :
    itemNext (ResourceRecord.fromBytes data) off = some next ↔
      ∃ e, RecordFits data off e ∧ ¬ CyclicRdata data e ∧ ¬ OverrunRdata data e ∧
        next = e + 10 + rdlenAt data e := by
  unfold itemNext
  constructor
  · intro h
    by_cases hcycle : NameCycles data off
    · rw [record_eq_diverge.mpr (.inl hcycle)] at h
      cases h
    by_cases hfits : ∃ e, RecordFits data off e
    · obtain ⟨e, hfit⟩ := hfits
      have hcyc : ¬ CyclicRdata data e := by
        intro hc
        rw [record_eq_diverge.mpr (.inr ⟨e, hfit, hc⟩)] at h
        cases h
      have hover : ¬ OverrunRdata data e := by
        intro hc
        rw [record_eq_panic.mpr ⟨e, hfit, hc⟩] at h
        cases h
      obtain ⟨⟨n, hn⟩, hroom⟩ := hfit
      obtain ⟨parsed, hparsed⟩ := parseRdata_returns
        (by rw [length_rawRdataAt hroom]; exact hcyc) (by rw [length_rawRdataAt hroom]; exact hover)
      rw [record_of_fits hn hroom, hparsed, Outcome.ok_bind] at h
      exact ⟨e, ⟨⟨n, hn⟩, hroom⟩, hcyc, hover, (Option.some.inj h).symm⟩
    · simp only [not_exists] at hfits
      obtain ⟨err, herr⟩ := record_of_not_fits hcycle hfits
      rw [herr] at h
      cases h
  · rintro ⟨e, ⟨⟨n, hn⟩, hroom⟩, hcyc, hover, rfl⟩
    obtain ⟨parsed, hparsed⟩ := parseRdata_returns
      (by rw [length_rawRdataAt hroom]; exact hcyc) (by rw [length_rawRdataAt hroom]; exact hover)
    rw [record_of_fits hn hroom, hparsed, Outcome.ok_bind]

end Items

/-! ### The section loops -/

section Loops

variable {α : Type} {parse : Nat → DnsResult (α × Nat)}

theorem itemNext_eq_some {off next : Nat} :
    itemNext parse off = some next ↔ ∃ item, parse off = .ok (item, next) := by
  unfold itemNext
  rcases parse off with ⟨item, o⟩ | err | _ | _ <;> simp

theorem parseItems_succ_eq_ok {count start off : Nat} {items : List α}
    (h : parseItems parse (count + 1) start = .ok (items, off)) :
    ∃ item mid rest, parse start = .ok (item, mid) ∧
      parseItems parse count mid = .ok (rest, off) ∧ items = item :: rest := by
  obtain ⟨⟨item, mid⟩, hitem, h⟩ := Outcome.bind_eq_ok.mp h
  obtain ⟨⟨rest, last⟩, hrest, h⟩ := Outcome.bind_eq_ok.mp h
  cases h
  exact ⟨item, mid, rest, hitem, hrest, rfl⟩

/-- A section loop returns where the walk over its items stands. -/
theorem parseItems_eq_ok {count start off : Nat} :
    (∃ items, parseItems parse count start = .ok (items, off)) ↔
      walk (itemNext parse) count start = some off := by
  induction count generalizing start with
  | zero => simp [parseItems, walk]
  | succ count ih =>
      simp only [parseItems, walk, Option.bind_eq_some_iff, itemNext_eq_some]
      constructor
      · rintro ⟨items, h⟩
        obtain ⟨⟨item, next⟩, hitem, h⟩ := Outcome.bind_eq_ok.mp h
        obtain ⟨⟨rest, off'⟩, hrest, h⟩ := Outcome.bind_eq_ok.mp h
        cases h
        exact ⟨next, ⟨item, hitem⟩, ih.mp ⟨rest, hrest⟩⟩
      · rintro ⟨next, ⟨item, hitem⟩, hwalk⟩
        obtain ⟨rest, hrest⟩ := ih.mpr hwalk
        exact ⟨item :: rest, by rw [hitem, Outcome.ok_bind, hrest]; rfl⟩

/-- A section loop fails to return at the item it fails to return from. -/
theorem parseItems_ending {count start : Nat} {e : Outcome.Ending} (he : e ≠ .returned) :
    (parseItems parse count start).ending = e ↔
      ∃ k off, k < count ∧ walk (itemNext parse) k start = some off ∧ (parse off).ending = e := by
  induction count generalizing start with
  | zero => simp [parseItems, Ne.symm he]
  | succ count ih =>
      rw [parseItems, Outcome.ending_bind he]
      constructor
      · rintro (hfirst | ⟨⟨item, next⟩, hitem, hend⟩)
        · exact ⟨0, start, Nat.succ_pos count, rfl, hfirst⟩
        · rw [Outcome.ending_bind he] at hend
          rcases hend with hend | ⟨⟨rest, off⟩, _, hend⟩
          · obtain ⟨k, off, hk, hwalk, hend⟩ := ih.mp hend
            refine ⟨k + 1, off, Nat.succ_lt_succ hk, ?_, hend⟩
            rw [walk, itemNext_eq_some.mpr ⟨item, hitem⟩]
            exact hwalk
          · exact absurd hend.symm he
      · rintro ⟨k, off, hk, hwalk, hend⟩
        cases k with
        | zero =>
            cases hwalk
            exact .inl hend
        | succ k =>
            obtain ⟨next, hnext, hwalk⟩ := Option.bind_eq_some_iff.mp hwalk
            obtain ⟨item, hitem⟩ := itemNext_eq_some.mp hnext
            refine .inr ⟨(item, next), hitem, (Outcome.ending_bind he).mpr (.inl ?_)⟩
            exact ih.mpr ⟨k, off, Nat.lt_of_succ_lt_succ hk, hwalk, hend⟩

/-- Two section loops after each other read the items of one longer loop. -/
theorem parseItems_add (m n start : Nat) :
    parseItems parse (m + n) start = (do
      let (first, off) ← parseItems parse m start
      let (second, off) ← parseItems parse n off
      .ok (first ++ second, off)) := by
  induction m generalizing start with
  | zero =>
      rw [Nat.zero_add]
      rcases h : parseItems parse n start with ⟨items, off⟩ | err | _ | _ <;>
        simp [parseItems, h]
  | succ m ih =>
      rw [Nat.succ_add]
      simp only [parseItems]
      rcases parse start with ⟨item, off⟩ | err | _ | _
      · simp only [Outcome.ok_bind, ih off]
        rcases parseItems parse m off with ⟨items, off⟩ | err | _ | _
        · simp only [Outcome.ok_bind, Outcome.pure_eq]
          rcases parseItems parse n off with ⟨items, off⟩ | err | _ | _ <;> rfl
        · rfl
        · rfl
        · rfl
      · rfl
      · rfl
      · rfl

/-- The three record sections end as one loop over all their records does. -/
theorem sections_ending {β : Type} (a b c start : Nat) (k : List α → List α → List α → β) :
    (do
      let (answers, off) ← parseItems parse a start
      let (authorities, off) ← parseItems parse b off
      let (additionals, _) ← parseItems parse c off
      (.ok (k answers authorities additionals) : DnsResult β)).ending =
      (parseItems parse (a + b + c) start).ending := by
  rw [parseItems_add (a + b) c, parseItems_add a b]
  rcases parseItems parse a start with ⟨answers, off⟩ | err | _ | _
  · simp only [Outcome.ok_bind]
    rcases parseItems parse b off with ⟨authorities, off⟩ | err | _ | _
    · simp only [Outcome.ok_bind]
      rcases parseItems parse c off with ⟨additionals, off⟩ | err | _ | _ <;> rfl
    · rfl
    · rfl
    · rfl
  · rfl
  · rfl
  · rfl

theorem walk_succ_eq_some {next : Nat → Option Nat} {n start off : Nat} :
    walk next (n + 1) start = some off ↔
      ∃ mid, walk next n start = some mid ∧ next mid = some off := by
  rw [walk_add, Option.bind_eq_some_iff]
  simp [walk]

end Loops

/-! ### The layout is where the loops stand -/

section Positions

variable {data : Bytes}

/-- A record is read if it fits and the parser of its RDATA returns. -/
theorem record_eq_ok {off next : Nat} {r : ResourceRecord} :
    ResourceRecord.fromBytes data off = .ok (r, next) ↔
      ∃ n e parsed, NameAt data off off n e ∧ e + 10 + rdlenAt data e ≤ data.length ∧
        parseRdata (u16At data e) (rawRdataAt data e) data (e + 10) = .ok parsed ∧
        r = recordWith data n e parsed ∧ next = e + 10 + rdlenAt data e := by
  constructor
  · intro h
    obtain ⟨e, ⟨⟨n, hn⟩, hroom⟩, _⟩ := record_itemNext.mp (itemNext_eq_some.mpr ⟨r, h⟩)
    rw [record_of_fits hn hroom] at h
    obtain ⟨parsed, hparsed, hpure⟩ := Outcome.bind_eq_ok.mp h
    cases hpure
    exact ⟨n, e, parsed, hn, hroom, hparsed, rfl, rfl⟩
  · rintro ⟨n, e, parsed, hn, hroom, hparsed, rfl, rfl⟩
    rw [record_of_fits hn hroom, hparsed, Outcome.ok_bind]

theorem questionAt_iff {i off : Nat} :
    QuestionAt data i off ↔ 12 ≤ data.length ∧ i ≤ questionCount data ∧
      walk (itemNext (Question.fromBytes data)) i 12 = some off := by
  constructor
  · intro h
    induction h with
    | first hlen => exact ⟨hlen, Nat.zero_le _, rfl⟩
    | next _ hi hn hroom ih =>
        obtain ⟨hlen, _, hwalk⟩ := ih
        refine ⟨hlen, hi, walk_succ_eq_some.mpr ⟨_, hwalk, ?_⟩⟩
        exact question_itemNext.mpr ⟨_, _, hn, hroom, rfl⟩
  · induction i generalizing off with
    | zero =>
        rintro ⟨hlen, _, hwalk⟩
        cases hwalk
        exact .first hlen
    | succ i ih =>
        rintro ⟨hlen, hi, hwalk⟩
        obtain ⟨mid, hmid, hnext⟩ := walk_succ_eq_some.mp hwalk
        obtain ⟨n, e, hn, hroom, rfl⟩ := question_itemNext.mp hnext
        exact .next (ih ⟨hlen, Nat.le_of_lt hi, hmid⟩) hi hn hroom

theorem recordAt_iff {j off : Nat} :
    RecordAt data j off ↔ j ≤ recordCount data ∧
      ∃ start, QuestionAt data (questionCount data) start ∧
        walk (itemNext (ResourceRecord.fromBytes data)) j start = some off := by
  constructor
  · intro h
    induction h with
    | first hq => exact ⟨Nat.zero_le _, _, hq, rfl⟩
    | next _ hj hfit hcyc hover ih =>
        obtain ⟨_, start, hq, hwalk⟩ := ih
        refine ⟨hj, start, hq, walk_succ_eq_some.mpr ⟨_, hwalk, ?_⟩⟩
        exact record_itemNext.mpr ⟨_, hfit, hcyc, hover, rfl⟩
  · induction j generalizing off with
    | zero =>
        rintro ⟨_, start, hq, hwalk⟩
        cases hwalk
        exact .first hq
    | succ j ih =>
        rintro ⟨hj, start, hq, hwalk⟩
        obtain ⟨mid, hmid, hnext⟩ := walk_succ_eq_some.mp hwalk
        obtain ⟨e, hfit, hcyc, hover, rfl⟩ := record_itemNext.mp hnext
        exact .next (ih ⟨Nat.le_of_lt hj, start, hq, hmid⟩) hj hfit hcyc hover

/-- What a decoded message was read from. -/
theorem decodeMessage_eq_ok {m : Message} (h : decodeMessage data = .ok m) :
    ∃ off₁ off₂ off₃ off₄, Header.fromBytes data = .ok m.header ∧
      parseItems (Question.fromBytes data) m.header.qdcount.toNat 12 = .ok (m.questions, off₁) ∧
      parseItems (ResourceRecord.fromBytes data) m.header.ancount.toNat off₁ =
        .ok (m.answers, off₂) ∧
      parseItems (ResourceRecord.fromBytes data) m.header.nscount.toNat off₂ =
        .ok (m.authorities, off₃) ∧
      parseItems (ResourceRecord.fromBytes data) m.header.arcount.toNat off₃ =
        .ok (m.additionals, off₄) := by
  obtain ⟨header, hheader, h⟩ := Outcome.bind_eq_ok.mp h
  obtain ⟨⟨questions, off₁⟩, hquestions, h⟩ := Outcome.bind_eq_ok.mp h
  obtain ⟨⟨answers, off₂⟩, hanswers, h⟩ := Outcome.bind_eq_ok.mp h
  obtain ⟨⟨authorities, off₃⟩, hauthorities, h⟩ := Outcome.bind_eq_ok.mp h
  obtain ⟨⟨additionals, off₄⟩, hadditionals, h⟩ := Outcome.bind_eq_ok.mp h
  cases h
  exact ⟨off₁, off₂, off₃, off₄, hheader, hquestions, hanswers, hauthorities, hadditionals⟩

/-- A message fails to return in its questions, or in one of its records. -/
theorem fromBytes_ending {e : Outcome.Ending} (he : e ≠ .returned) :
    (Message.fromBytes data).ending = e ↔
      (∃ i off, QuestionAt data i off ∧ i < questionCount data ∧
        (Question.fromBytes data off).ending = e) ∨
      ∃ j off, RecordAt data j off ∧ j < recordCount data ∧
        (ResourceRecord.fromBytes data off).ending = e := by
  by_cases hlen : 12 ≤ data.length
  · obtain ⟨h, hheader, hfrom⟩ := header_of_le hlen
    rw [Message.fromBytes, hheader, Outcome.ok_bind, Outcome.ending_bind he,
      parseItems_ending he, hfrom.qdcount, hfrom.ancount, hfrom.nscount, hfrom.arcount]
    constructor
    · rintro (⟨i, off, hi, hwalk, hend⟩ | ⟨⟨questions, start⟩, hquestions, hend⟩)
      · exact .inl ⟨i, off, questionAt_iff.mpr ⟨hlen, Nat.le_of_lt hi, hwalk⟩, hi, hend⟩
      · have hrecords := (sections_ending _ _ _ start (Message.mk h questions)).symm.trans hend
        obtain ⟨j, off, hj, hwalk, hend⟩ := (parseItems_ending he).mp hrecords
        have hstart : QuestionAt data (questionCount data) start :=
          questionAt_iff.mpr ⟨hlen, Nat.le_refl _, parseItems_eq_ok.mp ⟨questions, hquestions⟩⟩
        exact .inr ⟨j, off, recordAt_iff.mpr ⟨Nat.le_of_lt hj, start, hstart, hwalk⟩, hj, hend⟩
    · rintro (⟨i, off, hat, hi, hend⟩ | ⟨j, off, hat, hj, hend⟩)
      · exact .inl ⟨i, off, hi, (questionAt_iff.mp hat).2.2, hend⟩
      · obtain ⟨_, start, hstart, hwalk⟩ := recordAt_iff.mp hat
        obtain ⟨questions, hquestions⟩ := parseItems_eq_ok.mpr (questionAt_iff.mp hstart).2.2
        refine .inr ⟨(questions, start), hquestions, ?_⟩
        refine (sections_ending _ _ _ start (Message.mk h questions)).trans ?_
        exact (parseItems_ending he).mpr ⟨j, off, hj, hwalk, hend⟩
  · have hq : ∀ i off, ¬ QuestionAt data i off := fun i off h => hlen (questionAt_iff.mp h).1
    have hr : ∀ j off, ¬ RecordAt data j off := by
      intro j off h
      obtain ⟨_, start, hstart, _⟩ := recordAt_iff.mp h
      exact hq _ _ hstart
    have herr : Header.fromBytes data = .err (.bufferTooSmall 12 data.length) :=
      if_pos (Nat.lt_of_not_le hlen)
    simp [Message.fromBytes, herr, hq, hr, Ne.symm he]

/-- **A message is never decoded to its end exactly when the parser gets to a
name that cycles.** -/
theorem fromBytes_eq_diverge :
    Message.fromBytes data = .diverge ↔ ∃ s, NameStart data s ∧ NameCycles data s := by
  rw [← Outcome.ending_eq_diverged, fromBytes_ending (by decide)]
  simp only [question_ending (e := .diverged) (by decide), Outcome.ending_eq_diverged,
    decodeDomainName_eq_diverge, record_eq_diverge]
  constructor
  · rintro (⟨i, off, hat, hi, hcycle⟩ | ⟨j, off, hat, hj, hcycle | ⟨e, hfit, hcycle⟩⟩)
    · exact ⟨off, .qname hat hi, hcycle⟩
    · exact ⟨off, .owner hat hj, hcycle⟩
    · obtain ⟨s, hs, hcycle⟩ := hcycle
      exact ⟨s, .embedded hat hj hfit hs, hcycle⟩
  · rintro ⟨s, hstart, hcycle⟩
    cases hstart with
    | qname hat hi => exact .inl ⟨_, s, hat, hi, hcycle⟩
    | owner hat hj => exact .inr ⟨_, s, hat, hj, .inl hcycle⟩
    | embedded hat hj hfit hs =>
        exact .inr ⟨_, _, hat, hj, .inr ⟨_, hfit, s, hs, hcycle⟩⟩

/-- **Decoding a message panics exactly when the parser gets to an NSEC record
that is cut short.** -/
theorem fromBytes_eq_panic : Message.fromBytes data = .panic ↔ OverrunRecord data := by
  rw [← Outcome.ending_eq_panicked, fromBytes_ending (by decide)]
  simp only [question_ending (e := .panicked) (by decide), Outcome.ending_eq_panicked,
    decodeDomainName_ne_panic, record_eq_panic, and_false, exists_false, false_or]
  constructor
  · rintro ⟨j, off, hat, hj, e, hfit, hover⟩
    exact ⟨j, off, e, hat, hj, hfit, hover⟩
  · rintro ⟨j, off, e, hat, hj, hfit, hover⟩
    exact ⟨j, off, hat, hj, e, hfit, hover⟩

end Positions

/-! ### When decoding comes back -/

/-- **Decoding comes back from every name and every message, except from a
cycle of labels and pointers.** The first part is about the unbounded loop, the
second says that the bound of `decodeDomainName` hides nothing. -/
theorem decoding_returns_iff_acyclic (data : Bytes) :
    (∀ offset, (∃ rounds, decodeLoop data offset rounds (.start offset) ≠ .diverge) ↔
      ¬ NameCycles data offset) ∧
    (∀ offset, decodeDomainName data offset ≠ .diverge ↔
      ∃ rounds, decodeLoop data offset rounds (.start offset) ≠ .diverge) ∧
    (Message.fromBytes data ≠ .diverge ↔ ∀ s, NameStart data s → ¬ NameCycles data s) := by
  refine ⟨decodeLoop_returns_iff data, fun offset => ?_, ?_⟩
  · rw [ne_eq, decodeDomainName_eq_diverge, decodeLoop_returns_iff]
  · rw [ne_eq, fromBytes_eq_diverge]
    simp only [not_exists, not_and]

/-- A query whose question name points to offset 0, where the message id is a
pointer to offset 0. -/
def selfPointingQuery : Bytes :=
  [0xc0, 0, 0, 0, 0, 1, 0, 0, 0, 0, 0, 0, 0xc0, 0, 0, 1, 0, 1]

/-- The guard on pointers lets the decoder circle below the start of the name. -/
theorem selfPointingQuery_never_returns :
    (∀ rounds, decodeLoop selfPointingQuery 12 rounds (.start 12) = .diverge) ∧
      Message.fromBytes selfPointingQuery = .diverge := by
  have hmsg : Message.fromBytes selfPointingQuery = .diverge := by decide +kernel
  have hname : decodeDomainName selfPointingQuery 12 = .diverge := by decide +kernel
  refine ⟨?_, hmsg⟩
  intro rounds
  by_contra hret
  exact hret (hname ▸ (decodeDomainName_of_loop hret).symm)

/-- **Decoding that comes back returns a value or an error, unless it gets to
an NSEC record that is cut short**; no other RDATA parser has a failing case. -/
theorem decoding_panic_free_iff (data : Bytes) (hret : Message.fromBytes data ≠ .diverge) :
    (((∃ m, Message.fromBytes data = .ok m) ∨ ∃ e, Message.fromBytes data = .err e) ↔
      ¬ OverrunRecord data) ∧
    ∀ (rtype : UInt16) (rdata : Bytes) (rdataOffset : Nat),
      parseRdata rtype rdata data rdataOffset = .panic ↔
        NsecOverrun data rtype rdata.length rdataOffset := by
  refine ⟨?_, fun _ _ _ => parseRdata_eq_panic⟩
  rw [← fromBytes_eq_panic]
  cases h : Message.fromBytes data with
  | ok m => simp
  | err e => simp
  | panic => simp
  | diverge => exact absurd h hret

/-- An answer with one NSEC record of the root and an OPT record after it. -/
def nsecAnswer (rdlength : UInt8) (rdata : Bytes) : Bytes :=
  [0, 7, 0x80, 0, 0, 0, 0, 1, 0, 0, 0, 1] ++
    [0, 0, 47, 0, 1, 0, 0, 0, 60, 0, rdlength] ++ rdata ++ [0, 0, 41, 4, 0xd0, 0, 0, 0, 0, 0, 0]

theorem nsecAnswer_whole_returns :
    Message.fromBytes (nsecAnswer 4 [0, 0, 1, 0x62]) ≠ .diverge ∧
      ¬ OverrunRecord (nsecAnswer 4 [0, 0, 1, 0x62]) := by
  have hret : Message.fromBytes (nsecAnswer 4 [0, 0, 1, 0x62]) ≠ .diverge := by decide +kernel
  refine ⟨hret, (decoding_panic_free_iff _ hret).1.mp ?_⟩
  cases h : Message.fromBytes (nsecAnswer 4 [0, 0, 1, 0x62]) with
  | ok m => exact .inl ⟨m, rfl⟩
  | err e => exact .inr ⟨e, rfl⟩
  | panic => exact absurd h (by decide +kernel)
  | diverge => exact absurd h hret

/-- With an empty RDATA the next-domain name is read from the record behind it. -/
theorem nsecAnswer_empty_panics : Message.fromBytes (nsecAnswer 0 []) = .panic := by
  decide +kernel

end FastDns.Dns
