/-
`decode_domain_name` (`src/dns/types.rs`): names with compression pointers.

`decodeStep` is one round of the source's `loop`, `decodeLoop` runs a number of
rounds, and `decodeDomainName` runs as many as there are positions in the
message, plus one. Whether another round follows depends on the position alone
(`nextPos`), so the loop is a walk over positions: it returns exactly when that
walk never comes back to a position (`decodeLoop_returns_iff`), and the bound
loses nothing (`decodeDomainName_eq_diverge`).

`NameAt` is the grammar of compressed names with the source's bound on
pointers, stated without the loop; `decodeDomainName_eq_ok` says that the
decoder accepts exactly that grammar.
-/

import FastDns.Dns.Types
import FastDns.Lib.Walk

namespace FastDns.Dns

open FastDns.Lib

/-! ### The loop -/

/-- The variables of the loop. -/
structure DecodeState where
  result : Bytes
  pos : Nat
  jumped : Bool
  jumpPos : Nat
deriving DecidableEq, Repr

/-- `((byte & 0x3f) as usize) << 8 | low as usize` -/
def pointerTarget (byte low : UInt8) : Nat := ((byte &&& 0x3f).toNat <<< 8) ||| low.toNat

/-- One round: the state of the next round, or the returned pair. -/
def decodeStep (data : Bytes) (offset : Nat) (s : DecodeState) :
    DnsResult (DecodeState ⊕ (Bytes × Nat)) := do
  if s.pos ≥ data.length then .err .unexpectedEof
  else
    let byte ← index data s.pos
    if byte = 0 then
      pure (.inr (s.result ++ [0], if s.jumped then s.jumpPos else s.pos + 1))
    else if byte &&& 0xc0 = 0xc0 then
      if s.pos + 1 ≥ data.length then .err .unexpectedEof
      else
        let low ← index data (s.pos + 1)
        let ptr := pointerTarget byte low
        -- The guard compares with the start of the whole name, not with `pos`.
        if ptr ≥ offset then .err (.invalidPointer ptr)
        else
          pure (.inl { s with
            pos := ptr, jumped := true,
            jumpPos := if s.jumped then s.jumpPos else s.pos + 2 })
    else if byte.toNat > 63 then .err (.invalidLabel "label exceeds 63 bytes")
    else if s.pos + 1 + byte.toNat > data.length then .err .unexpectedEof
    else
      let label ← slice data (s.pos + 1) (s.pos + 1 + byte.toNat)
      pure (.inl { s with
        result := s.result ++ byte :: label, pos := s.pos + 1 + byte.toNat })

/-- At most `fuel` rounds; `diverge` if the loop has not returned by then. -/
def decodeLoop (data : Bytes) (offset : Nat) : Nat → DecodeState → DnsResult (Bytes × Nat)
  | 0, _ => .diverge
  | fuel + 1, s => do
      match ← decodeStep data offset s with
      | .inl s => decodeLoop data offset fuel s
      | .inr r => pure r

/-- The variables before the first round. -/
def DecodeState.start (offset : Nat) : DecodeState := ⟨[], offset, false, 0⟩

/-- `decode_domain_name` -/
def decodeDomainName (data : Bytes) (offset : Nat) : DnsResult (Bytes × Nat) :=
  decodeLoop data offset (data.length + 1) (.start offset)

/-! ### The walk over positions -/

/-- The position of the round that follows a round at `pos`, if one does. -/
def nextPos (data : Bytes) (offset pos : Nat) : Option Nat :=
  match data[pos]? with
  | none => none
  | some byte =>
      if byte = 0 then none
      else if byte &&& 0xc0 = 0xc0 then
        match data[pos + 1]? with
        | none => none
        | some low =>
            if pointerTarget byte low ≥ offset then none else some (pointerTarget byte low)
      else if byte.toNat > 63 then none
      else if pos + 1 + byte.toNat > data.length then none
      else some (pos + 1 + byte.toNat)

theorem and_c0_ne_of_le {byte : UInt8} (h : byte.toNat ≤ 63) : byte &&& 0xc0 ≠ 0xc0 := by
  intro hptr
  have hnat : byte.toNat &&& 192 = 192 := congrArg UInt8.toNat hptr
  have := Nat.and_le_left (n := byte.toNat) (m := 192)
  omega

theorem ne_zero_of_and_c0 {byte : UInt8} (h : byte &&& 0xc0 = 0xc0) : byte ≠ 0 := by
  rintro rfl
  exact absurd h (by decide)

/-- **What one round does**: it reads the root label, follows a pointer, copies
a label, or fails at a position where the walk stops. -/
inductive DecodeRound (data : Bytes) (offset : Nat) (s : DecodeState) :
    DnsResult (DecodeState ⊕ (Bytes × Nat)) → Prop where
  | root : data[s.pos]? = some 0 →
      DecodeRound data offset s
        (.ok (.inr (s.result ++ [0], if s.jumped then s.jumpPos else s.pos + 1)))
  | pointer {byte low : UInt8} : data[s.pos]? = some byte → byte &&& 0xc0 = 0xc0 →
      data[s.pos + 1]? = some low → pointerTarget byte low < offset →
      DecodeRound data offset s
        (.ok (.inl { s with
          pos := pointerTarget byte low, jumped := true,
          jumpPos := if s.jumped then s.jumpPos else s.pos + 2 }))
  | label {byte : UInt8} : data[s.pos]? = some byte → byte ≠ 0 → byte.toNat ≤ 63 →
      s.pos + 1 + byte.toNat ≤ data.length →
      DecodeRound data offset s
        (.ok (.inl { s with
          result := s.result ++ byte :: (data.drop (s.pos + 1)).take byte.toNat,
          pos := s.pos + 1 + byte.toNat }))
  | fail {e : DnsError} : nextPos data offset s.pos = none → data[s.pos]? ≠ some 0 →
      DecodeRound data offset s (.err e)

theorem decodeStep_round (data : Bytes) (offset : Nat) (s : DecodeState) :
    DecodeRound data offset s (decodeStep data offset s) := by
  by_cases hpos : s.pos ≥ data.length
  · simp only [decodeStep, hpos, if_true]
    exact .fail (by simp [nextPos, hpos]) (by simp [hpos])
  have hlt : s.pos < data.length := Nat.lt_of_not_ge hpos
  have hget : data[s.pos]? = some data[s.pos] := List.getElem?_eq_getElem hlt
  simp only [decodeStep, hpos, index_of_lt hlt, if_false, Outcome.ok_bind]
  generalize data[s.pos] = byte at hget ⊢
  by_cases hzero : byte = 0
  · subst hzero
    simp only [if_true]
    exact .root hget
  by_cases hptr : byte &&& 0xc0 = 0xc0
  · simp only [hzero, hptr, if_false, if_true]
    by_cases hlow : s.pos + 1 ≥ data.length
    · simp only [hlow, if_true]
      exact .fail (by simp [nextPos, hget, hzero, hptr, hlow]) (by simp [hget, hzero])
    have hlow' : s.pos + 1 < data.length := Nat.lt_of_not_ge hlow
    have hgetLow := List.getElem?_eq_getElem hlow'
    simp only [hlow, index_of_lt hlow', if_false, Outcome.ok_bind]
    by_cases hback : pointerTarget byte data[s.pos + 1] ≥ offset
    · simp only [hback, if_true]
      exact .fail (by simp [nextPos, hget, hzero, hptr, hgetLow, hback]) (by simp [hget, hzero])
    · simp only [hback, if_false]
      exact .pointer hget hptr hgetLow (Nat.lt_of_not_ge hback)
  simp only [hzero, hptr, if_false]
  by_cases hlen : byte.toNat > 63
  · simp only [hlen, if_true]
    exact .fail (by simp [nextPos, hget, hzero, hptr, hlen]) (by simp [hget, hzero])
  by_cases hfit : s.pos + 1 + byte.toNat > data.length
  · simp only [hlen, hfit, if_false, if_true]
    exact .fail (by simp [nextPos, hget, hzero, hptr, hlen, hfit]) (by simp [hget, hzero])
  · have hle := Nat.le_of_not_gt hfit
    simp only [hlen, hfit, if_false, slice_of_le (Nat.le_add_right _ _) hle, Outcome.ok_bind,
      Nat.add_sub_cancel_left]
    exact .label hget hzero (Nat.le_of_not_gt hlen) hle

theorem nextPos_root {data : Bytes} {offset p : Nat} (h : data[p]? = some 0) :
    nextPos data offset p = none := by
  simp [nextPos, h]

theorem nextPos_pointer {data : Bytes} {offset p : Nat} {byte low : UInt8}
    (hbyte : data[p]? = some byte) (hptr : byte &&& 0xc0 = 0xc0)
    (hlow : data[p + 1]? = some low) (hback : pointerTarget byte low < offset) :
    nextPos data offset p = some (pointerTarget byte low) := by
  simp [nextPos, hbyte, ne_zero_of_and_c0 hptr, hptr, hlow, hback]

theorem nextPos_label {data : Bytes} {offset p : Nat} {byte : UInt8}
    (hbyte : data[p]? = some byte) (hzero : byte ≠ 0) (hlen : byte.toNat ≤ 63)
    (hfit : p + 1 + byte.toNat ≤ data.length) :
    nextPos data offset p = some (p + 1 + byte.toNat) := by
  simp [nextPos, hbyte, hzero, and_c0_ne_of_le hlen, hlen, hfit]

/-- A round continues at the next position of the walk, or the walk stops there
and the round returns. It never panics. -/
theorem decodeStep_cases (data : Bytes) (offset : Nat) (s : DecodeState) :
    (∃ s', decodeStep data offset s = .ok (.inl s') ∧ nextPos data offset s.pos = some s'.pos) ∨
      (nextPos data offset s.pos = none ∧
        ((∃ r, decodeStep data offset s = .ok (.inr r)) ∨
          ∃ e, decodeStep data offset s = .err e)) := by
  have hround := decodeStep_round data offset s
  generalize decodeStep data offset s = step at hround ⊢
  cases hround with
  | root hbyte => exact .inr ⟨nextPos_root hbyte, .inl ⟨_, rfl⟩⟩
  | pointer hbyte hptr hlow hback =>
      exact .inl ⟨_, rfl, nextPos_pointer hbyte hptr hlow hback⟩
  | label hbyte hzero hlen hfit => exact .inl ⟨_, rfl, nextPos_label hbyte hzero hlen hfit⟩
  | fail hnext _ => exact .inr ⟨hnext, .inr ⟨_, rfl⟩⟩

/-- Only positions inside the message are left. -/
theorem nextPos_lt {data : Bytes} {offset pos : Nat} (h : nextPos data offset pos ≠ none) :
    pos ∈ Finset.range data.length := by
  rw [Finset.mem_range]
  by_contra hge
  exact h (by simp [nextPos, List.getElem?_eq_none (Nat.le_of_not_lt hge)])

/-- The loop is still running after `fuel` rounds exactly when the walk has not
stopped after as many moves. -/
theorem decodeLoop_eq_diverge (data : Bytes) (offset fuel : Nat) (s : DecodeState) :
    decodeLoop data offset fuel s = .diverge ↔
      walk (nextPos data offset) fuel s.pos ≠ none := by
  induction fuel generalizing s with
  | zero => simp [decodeLoop, walk]
  | succ fuel ih =>
      simp only [decodeLoop, walk]
      rcases decodeStep_cases data offset s with ⟨s', hstep, hnext⟩ | ⟨hnext, ⟨r, hr⟩ | ⟨e, he⟩⟩
      · rw [hstep, hnext, Outcome.ok_bind, Option.bind_some]
        exact ih s'
      · simp [hr, hnext]
      · simp [he, hnext]

/-- The loop never panics. -/
theorem decodeLoop_ne_panic (data : Bytes) (offset fuel : Nat) (s : DecodeState) :
    decodeLoop data offset fuel s ≠ .panic := by
  induction fuel generalizing s with
  | zero => simp [decodeLoop]
  | succ fuel ih =>
      simp only [decodeLoop]
      rcases decodeStep_cases data offset s with ⟨s', hstep, _⟩ | ⟨_, ⟨r, hr⟩ | ⟨e, he⟩⟩
      · rw [hstep, Outcome.ok_bind]
        exact ih s'
      · simp [hr]
      · simp [he]

/-- A loop that has returned returns the same with more rounds allowed. -/
theorem decodeLoop_mono {data : Bytes} {offset m n : Nat} {s : DecodeState} (hle : m ≤ n)
    (h : decodeLoop data offset m s ≠ .diverge) :
    decodeLoop data offset n s = decodeLoop data offset m s := by
  induction m generalizing n s with
  | zero => simp [decodeLoop] at h
  | succ m ih =>
      obtain ⟨n, rfl⟩ : ∃ k, n = k + 1 := ⟨n - 1, by omega⟩
      simp only [decodeLoop] at h ⊢
      rcases decodeStep_cases data offset s with ⟨s', hstep, _⟩ | ⟨_, ⟨r, hr⟩ | ⟨e, he⟩⟩
      · rw [hstep, Outcome.ok_bind] at h ⊢
        rw [Outcome.ok_bind]
        exact ih (by omega) h
      · simp [hr]
      · simp [he]

/-- Following labels and pointers from `offset` comes back to a position. -/
def NameCycles (data : Bytes) (offset : Nat) : Prop := Revisits (nextPos data offset) offset

/-- **The loop performs finitely many rounds exactly when the chain of labels
and pointers of the name has no cycle.** -/
theorem decodeLoop_returns_iff (data : Bytes) (offset : Nat) :
    (∃ rounds, decodeLoop data offset rounds (.start offset) ≠ .diverge) ↔
      ¬ NameCycles data offset := by
  rw [NameCycles, ← stops_iff_not_revisits fun _ => nextPos_lt, Stops]
  simp only [ne_eq, decodeLoop_eq_diverge, not_not]
  rfl

/-- The bound in `decodeDomainName` cuts off no run that would return. -/
theorem decodeDomainName_eq_diverge (data : Bytes) (offset : Nat) :
    decodeDomainName data offset = .diverge ↔ NameCycles data offset := by
  rw [decodeDomainName, decodeLoop_eq_diverge, NameCycles, ne_eq, not_iff_comm,
    ← stops_iff_not_revisits fun _ => nextPos_lt, stops_iff_walk_card fun _ => nextPos_lt,
    Finset.card_range]
  rfl

theorem decodeDomainName_ne_panic (data : Bytes) (offset : Nat) :
    decodeDomainName data offset ≠ .panic :=
  decodeLoop_ne_panic _ _ _ _

/-- Whatever the loop returns after some number of rounds, the decoder returns. -/
theorem decodeDomainName_of_loop {data : Bytes} {offset rounds : Nat}
    (h : decodeLoop data offset rounds (.start offset) ≠ .diverge) :
    decodeDomainName data offset = decodeLoop data offset rounds (.start offset) := by
  have hacyclic := (decodeLoop_returns_iff data offset).mp ⟨rounds, h⟩
  have hbound : decodeDomainName data offset ≠ .diverge :=
    fun hd => hacyclic ((decodeDomainName_eq_diverge data offset).mp hd)
  rcases Nat.le_total rounds (data.length + 1) with hle | hle
  · exact decodeLoop_mono hle h
  · exact (decodeLoop_mono hle hbound).symm

/-! ### The grammar of compressed names -/

/-- `NameAt data offset p n next`: the bytes at `p` spell the name `n`, its
labels copied in place and its pointers leading before `offset`; `next` is
where the bytes after the name start. -/
inductive NameAt (data : Bytes) (offset : Nat) : Nat → Bytes → Nat → Prop where
  | root {p : Nat} : data[p]? = some 0 → NameAt data offset p [0] (p + 1)
  | label {p : Nat} {byte : UInt8} {n : Bytes} {next : Nat} :
      data[p]? = some byte → byte ≠ 0 → byte.toNat ≤ 63 → p + 1 + byte.toNat ≤ data.length →
      NameAt data offset (p + 1 + byte.toNat) n next →
      NameAt data offset p (byte :: (data.drop (p + 1)).take byte.toNat ++ n) next
  | pointer {p : Nat} {byte low : UInt8} {n : Bytes} {next : Nat} :
      data[p]? = some byte → byte &&& 0xc0 = 0xc0 → data[p + 1]? = some low →
      pointerTarget byte low < offset →
      NameAt data offset (pointerTarget byte low) n next →
      NameAt data offset p n (p + 2)

/-- A returned name is one of the grammar. -/
theorem nameAt_of_decodeLoop {data : Bytes} {offset fuel : Nat} {s : DecodeState}
    {r : Bytes × Nat} (h : decodeLoop data offset fuel s = .ok r) :
    ∃ n next, NameAt data offset s.pos n next ∧ r.1 = s.result ++ n ∧
      r.2 = if s.jumped then s.jumpPos else next := by
  induction fuel generalizing s with
  | zero => simp [decodeLoop] at h
  | succ fuel ih =>
      simp only [decodeLoop] at h
      have hround := decodeStep_round data offset s
      generalize decodeStep data offset s = step at h hround
      cases hround with
      | root hbyte =>
          simp only [Outcome.ok_bind, Outcome.pure_eq, Outcome.ok.injEq] at h
          subst h
          exact ⟨[0], s.pos + 1, .root hbyte, rfl, rfl⟩
      | pointer hbyte hptr hlow hback =>
          obtain ⟨n, next, hname, hres, hnext⟩ := ih h
          refine ⟨n, s.pos + 2, .pointer hbyte hptr hlow hback hname, hres, ?_⟩
          simpa using hnext
      | label hbyte hzero hlen hfit =>
          obtain ⟨n, next, hname, hres, hnext⟩ := ih h
          exact ⟨_, next, .label hbyte hzero hlen hfit hname, by simp [hres], hnext⟩
      | fail => simp at h

theorem decodeStep_root {data : Bytes} {offset : Nat} {s : DecodeState}
    (hbyte : data[s.pos]? = some 0) :
    decodeStep data offset s =
      .ok (.inr (s.result ++ [0], if s.jumped then s.jumpPos else s.pos + 1)) := by
  have hlt := (List.getElem?_eq_some_iff.mp hbyte).1
  simp [decodeStep, Nat.not_le_of_lt hlt, index_eq_ok.mpr hbyte]

theorem decodeStep_pointer {data : Bytes} {offset : Nat} {s : DecodeState} {byte low : UInt8}
    (hbyte : data[s.pos]? = some byte) (hptr : byte &&& 0xc0 = 0xc0)
    (hlow : data[s.pos + 1]? = some low) (hback : pointerTarget byte low < offset) :
    decodeStep data offset s =
      .ok (.inl { s with
        pos := pointerTarget byte low, jumped := true,
        jumpPos := if s.jumped then s.jumpPos else s.pos + 2 }) := by
  have hlt := (List.getElem?_eq_some_iff.mp hbyte).1
  have hlt' := (List.getElem?_eq_some_iff.mp hlow).1
  simp [decodeStep, Nat.not_le_of_lt hlt, index_eq_ok.mpr hbyte, ne_zero_of_and_c0 hptr, hptr,
    Nat.not_le_of_lt hlt', index_eq_ok.mpr hlow, Nat.not_le_of_lt hback]

theorem decodeStep_label {data : Bytes} {offset : Nat} {s : DecodeState} {byte : UInt8}
    (hbyte : data[s.pos]? = some byte) (hzero : byte ≠ 0) (hlen : byte.toNat ≤ 63)
    (hfit : s.pos + 1 + byte.toNat ≤ data.length) :
    decodeStep data offset s =
      .ok (.inl { s with
        result := s.result ++ byte :: (data.drop (s.pos + 1)).take byte.toNat,
        pos := s.pos + 1 + byte.toNat }) := by
  have hlt := (List.getElem?_eq_some_iff.mp hbyte).1
  simp [decodeStep, Nat.not_le_of_lt hlt, index_eq_ok.mpr hbyte, hzero, and_c0_ne_of_le hlen,
    Nat.not_lt_of_le hlen, Nat.not_lt_of_le hfit, slice_of_le (Nat.le_add_right _ _) hfit]

/-- Every name of the grammar is returned after some number of rounds. -/
theorem decodeLoop_of_nameAt {data : Bytes} {offset p : Nat} {n : Bytes} {next : Nat}
    (h : NameAt data offset p n next) (s : DecodeState) (hs : s.pos = p) :
    ∃ rounds, decodeLoop data offset rounds s =
      .ok (s.result ++ n, if s.jumped then s.jumpPos else next) := by
  induction h generalizing s with
  | root hbyte =>
      subst hs
      exact ⟨1, by simp [decodeLoop, decodeStep_root hbyte]⟩
  | @label p byte n next hbyte hzero hlen hfit _ ih =>
      subst hs
      obtain ⟨rounds, hrun⟩ := ih { s with
        result := s.result ++ byte :: (data.drop (s.pos + 1)).take byte.toNat,
        pos := s.pos + 1 + byte.toNat } rfl
      refine ⟨rounds + 1, ?_⟩
      simp only [decodeLoop, decodeStep_label hbyte hzero hlen hfit, Outcome.ok_bind]
      rw [hrun]
      simp
  | @pointer p byte low n next hbyte hptr hlow hback _ ih =>
      subst hs
      obtain ⟨rounds, hrun⟩ := ih { s with
        pos := pointerTarget byte low, jumped := true,
        jumpPos := if s.jumped then s.jumpPos else s.pos + 2 } rfl
      refine ⟨rounds + 1, ?_⟩
      simp only [decodeLoop, decodeStep_pointer hbyte hptr hlow hback, Outcome.ok_bind]
      rw [hrun]
      simp

/-- **The decoder accepts exactly the grammar.** -/
theorem decodeDomainName_eq_ok {data : Bytes} {offset : Nat} {n : Bytes} {next : Nat} :
    decodeDomainName data offset = .ok (n, next) ↔ NameAt data offset offset n next := by
  constructor
  · intro h
    obtain ⟨n', next', hname, hres, hnext⟩ := nameAt_of_decodeLoop h
    simp only [DecodeState.start, List.nil_append, Bool.false_eq_true, if_false] at hname hres hnext
    exact hres ▸ hnext ▸ hname
  · intro h
    obtain ⟨rounds, hrun⟩ := decodeLoop_of_nameAt h (.start offset) rfl
    have hreturns : decodeLoop data offset rounds (.start offset) ≠ .diverge := by simp [hrun]
    rw [decodeDomainName_of_loop hreturns, hrun]
    rfl

/-- A name takes up at least one byte, and all its bytes are in the message. -/
theorem NameAt.bounds {data : Bytes} {offset p : Nat} {n : Bytes} {next : Nat}
    (h : NameAt data offset p n next) : p < next ∧ next ≤ data.length := by
  induction h with
  | root hbyte =>
      have := (List.getElem?_eq_some_iff.mp hbyte).1
      omega
  | label _ _ _ _ _ ih => omega
  | pointer _ _ hlow _ _ _ =>
      have := (List.getElem?_eq_some_iff.mp hlow).1
      omega

/-- A name of the grammar is the only one at its place. -/
theorem NameAt.unique {data : Bytes} {offset : Nat} {n n' : Bytes} {next next' : Nat}
    (h : NameAt data offset offset n next) (h' : NameAt data offset offset n' next') :
    n = n' ∧ next = next' := by
  have hrun := decodeDomainName_eq_ok.mpr h
  rw [decodeDomainName_eq_ok.mpr h'] at hrun
  simp only [Outcome.ok.injEq, Prod.mk.injEq] at hrun
  exact ⟨hrun.1.symm, hrun.2.symm⟩

end FastDns.Dns
