/-
The target of an alias, as a name to be resolved.

When the RDATA of a CNAME record cannot be parsed, `resolve_recursive` calls
itself with the raw bytes. Most of what the call does with them is safe on any
bytes: counting labels, the walk over the delegation cache and the encoding of a
query. `name_prefix` is not, it slices out the labels it keeps. It fails exactly
on a name with another label before one that is cut short
(`namePrefix_eq_panic`), and the minimised first query of the call runs into it
(`aliasTarget_safe_iff`).
-/

import FastDns.Dns.RoundTrip
import FastDns.Resolver.Disclosure
import FastDns.Resolver.LongestMatch

namespace FastDns.Dns

open FastDns.Lib

/-! ### Names that are cut short -/

def cutShortLoop : Nat → Bytes → Bool
  | 0, _ => false
  | _ + 1, [] => false
  | fuel + 1, len :: rest =>
      if len = 0 then false
      else if rest.length < len.toNat then true
      else cutShortLoop fuel (rest.drop len.toNat)

/-- The last label goes beyond the end of the bytes. -/
def lastLabelCut (name : Bytes) : Bool := cutShortLoop name.length name

section Cut

variable {skip fuel count : Nat} {name result : Bytes}

/-- Labels that are all there can be copied. -/
theorem namePrefixLoop_of_whole (h : cutShortLoop fuel name = false) :
    ∃ copied, namePrefixLoop skip fuel name count result = .ok copied := by
  induction fuel generalizing name count result with
  | zero => exact ⟨_, rfl⟩
  | succ fuel ih =>
      cases name with
      | nil => exact ⟨_, rfl⟩
      | cons len rest =>
          unfold cutShortLoop at h
          unfold namePrefixLoop
          by_cases hzero : len = 0
          · exact ⟨_, by rw [if_pos hzero]⟩
          rw [if_neg hzero] at h ⊢
          by_cases hshort : rest.length < len.toNat
          · rw [if_pos hshort] at h
            cases h
          rw [if_neg hshort] at h
          by_cases hcopy : skip ≤ count
          · rw [if_pos hcopy, slice_of_le (Nat.zero_le _) (Nat.not_lt.mp hshort)]
            exact ih h
          · rw [if_neg hcopy]
            exact ih h

/-- The last label is copied in any case. -/
theorem namePrefixLoop_of_cut (h : cutShortLoop fuel name = true)
    (hlast : skip < countLabelsLoop fuel name count) :
    namePrefixLoop skip fuel name count result = .panic := by
  induction fuel generalizing name count result with
  | zero => cases h
  | succ fuel ih =>
      cases name with
      | nil => cases h
      | cons len rest =>
          unfold cutShortLoop at h
          unfold countLabelsLoop at hlast
          unfold namePrefixLoop
          by_cases hzero : len = 0
          · rw [if_pos hzero] at h
            cases h
          rw [if_neg hzero] at h hlast ⊢
          by_cases hshort : rest.length < len.toNat
          · have hnil : rest.drop len.toNat = [] := List.drop_eq_nil_of_le (Nat.le_of_lt hshort)
            have hone : countLabelsLoop fuel (rest.drop len.toNat) (count + 1) = count + 1 := by
              rw [hnil]
              cases fuel <;> rfl
            have hslice : (slice rest 0 len.toNat : DnsResult Bytes) = .panic :=
              slice_eq_panic.mpr (.inr hshort)
            rw [if_pos (show skip ≤ count by omega), hslice]
            rfl
          · rw [if_neg hshort] at h
            by_cases hcopy : skip ≤ count
            · rw [if_pos hcopy, slice_of_le (Nat.zero_le _) (Nat.not_lt.mp hshort)]
              exact ih h hlast
            · rw [if_neg hcopy]
              exact ih h hlast

/-- **When `name_prefix` slices out of range**: it keeps some labels, but not all
of them, and the last one is cut short. -/
theorem namePrefix_eq_panic {n : Nat} (hn : 0 < n) :
    namePrefix name n = .panic ↔ n < countLabels name ∧ lastLabelCut name = true := by
  unfold namePrefix
  dsimp only
  by_cases hall : n ≥ countLabels name
  · rw [if_pos hall]
    constructor
    · intro h
      cases h
    · rintro ⟨hlt, _⟩
      exact absurd hlt (Nat.not_lt.mpr hall)
  rw [if_neg hall]
  cases hcut : lastLabelCut name with
  | false =>
      obtain ⟨copied, hcopied⟩ :=
        @namePrefixLoop_of_whole (countLabels name - n) name.length 0 name [] hcut
      rw [hcopied, Outcome.ok_bind]
      constructor
      · intro h
        split at h <;> cases h
      · rintro ⟨_, ⟨⟩⟩
  | true =>
      have hpanic : namePrefixLoop (countLabels name - n) name.length name 0 [] = .panic := by
        refine namePrefixLoop_of_cut hcut ?_
        change _ < countLabels name
        omega
      rw [hpanic, Outcome.panic_bind]
      exact ⟨fun _ => ⟨Nat.not_le.mp hall, rfl⟩, fun _ => rfl⟩

/-- The labels of a well-formed name are all there. -/
theorem cutShortLoop_wireName {labels : List Bytes} (h : LabelWalk fuel labels) :
    cutShortLoop fuel (wireName labels) = false := by
  induction h with
  | root fuel => rfl
  | label hok _ ih =>
      rw [wireName, List.cons_append, cutShortLoop, if_neg hok.length_ne_zero, hok.toNat_length,
        if_neg (by rw [List.length_append]; omega), List.drop_left]
      exact ih

/-- The RDATA of a CNAME record that was parsed is the name. -/
theorem RdataLayout.of_cname {rtype : UInt16} {rdata : Bytes} {p : RData}
    (h : RdataLayout rtype rdata p) (htype : rtype = 5) : p = .cname rdata ∧ WireName rdata := by
  cases h with
  | cname hn => exact ⟨rfl, hn⟩
  | other hunknown _ =>
      rw [htype] at hunknown
      exact absurd (by decide) hunknown
  | _ => exact absurd htype (by decide)

theorem WireName.not_cut (h : WireName name) : lastLabelCut name = false := by
  obtain ⟨labels, hok, rfl⟩ := h
  exact cutShortLoop_wireName hok.walk_wireName

end Cut

end FastDns.Dns

namespace FastDns.Resolver

open FastDns.Lib FastDns.Dns FastDns.Dnssec

/-! ### Calls for a target -/

/-- A query is encoded, or it is too long for that. -/
theorem buildQueryStatic_ends (name : Bytes) (rtype rclass id : UInt16)
    (dnssecOk recursive : Bool) :
    (∃ query, buildQueryStatic name rtype rclass id dnssecOk recursive = .ok query) ∨
      ∃ e, buildQueryStatic name rtype rclass id dnssecOk recursive = .err e := by
  refine encodeMessage_ends fun r hr => ?_
  obtain rfl := List.mem_singleton.mp hr
  rfl

/-- A call for the target in which nothing is sliced out of range: the walk over
the delegation cache returns, and in every round that the loop reaches, the name
of the query is found and the query is encoded or refused. -/
def ResolvesSafely (target : Bytes) : Prop :=
  ∀ (self : Recursive) (cfg : Config) (rtype rclass : UInt16) (depth : Nat) (env : Env) (st₀ : St)
    (kinds : List RoundKind) (s : Search) (st : St),
    Reaches self cfg target rtype rclass depth env
      (startSearch target true
        (findCachedDelegation (env.clock st₀.tick) target st₀.shared).1)
      (st₀.afterLookup env target) kinds s st →
    (∃ found, walkDelegations (env.clock st₀.tick) target (target.length + 1) 0 st₀.shared =
      .ok found) ∧
    ∃ qname, minimizeName target (countLabels target) s = .ok qname ∧
      ∀ id, (∃ query, buildQueryStatic qname rtype rclass id cfg.dnssecOk false = .ok query) ∨
        ∃ e, buildQueryStatic qname rtype rclass id cfg.dnssecOk false = .err e

section Target

variable {target : Bytes}

/-- A minimised query is for a label at least. -/
theorem one_le_revealed {self : Recursive} {cfg : Config} {rtype rclass : UInt16} {depth : Nat}
    {env : Env} {cached : Option (List IpAddr × Bytes)} {st₀ st : St} {kinds : List RoundKind}
    {s : Search}
    (h : Reaches self cfg target rtype rclass depth env (startSearch target true cached) st₀ kinds
      s st)
    (hshort : s.revealedLabels < countLabels target) : 1 ≤ s.revealedLabels := by
  have hle := h.revealed_le
  cases cached with
  | none => exact hle
  | some found => exact absurd hshort (Nat.not_lt.mpr hle)

/-- Which names can be resolved. -/
theorem resolvesSafely_iff :
    ResolvesSafely target ↔ countLabels target ≤ 1 ∨ lastLabelCut target = false := by
  constructor
  · intro hsafe
    by_contra hunsafe
    rw [not_or, Nat.not_le, Bool.not_eq_false] at hunsafe
    -- Without a cached delegation the first query is for one label.
    have hmiss : (findCachedDelegation 0 target (St.initial 0).shared).1 = none :=
      findDelegationLoop_none 0 _ _ fun _ => rfl
    obtain ⟨-, qname, hname, -⟩ := hsafe (resolveRecursive 0) ⟨false, false⟩ 1 1 0 (noDataEnv 0)
      (.initial 0) [] rootSearch _ (by
        rw [show (noDataEnv 0).clock (St.initial 0).tick = 0 from rfl, hmiss]
        exact .start)
    rw [minimizeName_rootSearch, (namePrefix_eq_panic Nat.one_pos).mpr hunsafe] at hname
    cases hname
  · intro hcond self cfg rtype rclass depth env st₀ kinds s st hreached
    refine ⟨⟨_, walkDelegations_eq _ target st₀.shared⟩, ?_⟩
    have hname : ∃ qname, minimizeName target (countLabels target) s = .ok qname := by
      unfold minimizeName
      split
      · rename_i hshort
        have hone := one_le_revealed hreached hshort
        rcases namePrefix_ends target s.revealedLabels with hok | hpanic
        · exact hok
        · obtain ⟨hlt, hcut⟩ := (namePrefix_eq_panic hone).mp hpanic
          rcases hcond with hfew | hwhole
          · omega
          · rw [hwhole] at hcut
            cases hcut
      · exact ⟨target, rfl⟩
    obtain ⟨qname, hqname⟩ := hname
    exact ⟨qname, hqname, fun id => buildQueryStatic_ends qname rtype rclass id cfg.dnssecOk false⟩

end Target

/-! ### Targets of a reply -/

/-- The target of a decoded alias is its RDATA, which is a well-formed name if it
was parsed. -/
theorem aliasOf_decoded {data name target : Bytes} {msg : Message} {cname : ResourceRecord}
    (hdecode : decodeMessage data = .ok msg) (halias : aliasOf name msg = some (cname, target)) :
    target = cname.rdata ∧ (cname.parsed ≠ none → WireName target) := by
  unfold aliasOf at halias
  split at halias
  · rename_i first others hfilter
    obtain ⟨found, htarget, hpair⟩ := Option.map_eq_some_iff.mp halias
    cases hpair
    have hmem : cname ∈ msg.answers.filter fun r => domainNamesEqual r.name name && r.rtype = 5 := by
      rw [hfilter]
      exact List.mem_cons_self
    obtain ⟨hanswer, hmatches⟩ := List.mem_filter.mp hmem
    have htype : cname.rtype = 5 := of_decide_eq_true (Bool.and_eq_true_iff.mp hmatches).2
    obtain ⟨off, next, hread⟩ := (decoded_message hdecode).2 cname
      (List.mem_append_left _ (List.mem_append_left _ hanswer))
    rcases (decoded_record hread).2 with ⟨p, hp, hlayout⟩ | ⟨hnone, _⟩
    · obtain ⟨rfl, hname⟩ := hlayout.of_cname htype
      rw [aliasTarget, hp] at htarget
      cases htarget
      exact ⟨rfl, fun _ => hname⟩
    · refine ⟨?_, fun hsome => absurd hnone hsome⟩
      rw [aliasTarget, hnone] at htarget
      dsimp only at htarget
      split at htarget
      · cases htarget
      · exact (Option.some.inj htarget).symm
  · cases halias

/-- **Which targets are safe to resolve**: those that were parsed, those of one
label at most, and those whose last label is not cut short. -/
theorem aliasTarget_safe_iff (data name target : Bytes) (msg : Message) (cname : ResourceRecord)
    (hdecode : decodeMessage data = .ok msg) (halias : aliasOf name msg = some (cname, target)) :
    ResolvesSafely target ↔
      cname.parsed ≠ none ∨ countLabels cname.rdata ≤ 1 ∨ lastLabelCut cname.rdata = false := by
  obtain ⟨rfl, hparsed⟩ := aliasOf_decoded hdecode halias
  rw [resolvesSafely_iff]
  constructor
  · exact .inr
  · rintro (hp | hcond)
    · exact .inr (hparsed hp).not_cut
    · exact hcond

/-! ### A poisoned alias -/

/-- A reply that gives `a` an alias: the label `b`, and a pointer that leads
nowhere. -/
def danglingReply : Bytes :=
  [0, 0, 0x84, 0, 0, 0, 0, 1, 0, 0, 0, 0] ++
    [1, 97, 0, 0, 5, 0, 1, 0, 0, 0, 60, 0, 4, 1, 98, 0xC0, 0xFF]

def danglingCname : ResourceRecord := ⟨[1, 97, 0], 5, 1, 60, 4, [1, 98, 0xC0, 0xFF], none⟩

def danglingMessage : Message where
  header := { Header.newQuery 0 false with qr := true, aa := true, qdcount := 0, ancount := 1 }
  questions := []
  answers := [danglingCname]
  authorities := []
  additionals := []

theorem danglingReply_decodes :
    decodeMessage danglingReply = .ok danglingMessage ∧
      aliasOf [1, 97, 0] danglingMessage = some (danglingCname, [1, 98, 0xC0, 0xFF]) := by
  decide +kernel

/-- The same reply with the alias `b`, which can be resolved. -/
theorem aliasTarget_safe_iff_complete :
    ∃ msg cname, decodeMessage ([0, 0, 0x84, 0, 0, 0, 0, 1, 0, 0, 0, 0] ++
        [1, 97, 0, 0, 5, 0, 1, 0, 0, 0, 60, 0, 3, 1, 98, 0]) = .ok msg ∧
      aliasOf [1, 97, 0] msg = some (cname, [1, 98, 0]) ∧ ResolvesSafely [1, 98, 0] := by
  have hdecode : decodeMessage ([0, 0, 0x84, 0, 0, 0, 0, 1, 0, 0, 0, 0] ++
      [1, 97, 0, 0, 5, 0, 1, 0, 0, 0, 60, 0, 3, 1, 98, 0]) =
      .ok { danglingMessage with
        answers := [⟨[1, 97, 0], 5, 1, 60, 3, [1, 98, 0], some (.cname [1, 98, 0])⟩] } := by
    decide +kernel
  refine ⟨_, _, hdecode, rfl, ?_⟩
  exact (aliasTarget_safe_iff _ [1, 97, 0] _ _ _ hdecode rfl).mpr (.inl (by simp))

/-- The reply is accepted, and the call for its alias slices out of range in the
first round. -/
theorem dangling_alias_panics :
    decodeMessage danglingReply = .ok danglingMessage ∧
      aliasOf [1, 97, 0] danglingMessage = some (danglingCname, [1, 98, 0xC0, 0xFF]) ∧
      ¬ ResolvesSafely [1, 98, 0xC0, 0xFF] ∧
      (resolveRecursive 1 ⟨false, false⟩ [1, 98, 0xC0, 0xFF] 1 1 1 true).result (noDataEnv 0)
        (.initial 10) = .panic := by
  refine ⟨danglingReply_decodes.1, danglingReply_decodes.2, ?_, by decide +kernel⟩
  rw [resolvesSafely_iff]
  decide

end FastDns.Resolver
