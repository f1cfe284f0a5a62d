/-
Domain names (`src/dns/types.rs`): text form, comparison, label counting and
suffixes.

Every loop of the source moves a cursor over a name; here the cursor is the
rest of the name still to be read, and the bound on the number of rounds is the
length of the name, which each round shortens. `labelsOf` and `IsSubdomain` are
the specification's view of a name: its list of labels, and the order of names
by suffix, ASCII case ignored.
-/

import FastDns.Dns.Types
import Mathlib.Data.List.DropRight
import Mathlib.Data.List.Infix

namespace FastDns.Dns

open FastDns.Lib

/-! ### Text form -/

/-- The label loop of `encode_domain_name`: each label prefixed by its length
and lower-cased. -/
def encodeLabels : List Bytes → DnsResult Bytes
  | [] => .ok []
  | label :: labels => do
      if label.isEmpty then .err (.invalidLabel "empty label in domain name")
      else if label.length > 63 then .err (.invalidLabel "label exceeds 63 characters")
      else
        let encoded ← encodeLabels labels
        pure (UInt8.ofNat label.length :: label.map asciiLower ++ encoded)

/-- `name.trim_end_matches('.')` -/
def trimEndDots (name : Bytes) : Bytes := name.rdropWhile (· == 46)

/-- `encode_domain_name` -/
def encodeDomainName (name : Bytes) : DnsResult Bytes := do
  let name := trimEndDots name
  if name.isEmpty then .ok [0]
  else
    let encoded ← encodeLabels (name.splitOn 46)
    pure (encoded ++ [0])

/-- The loop of `labels_to_string`: the labels that are valid UTF-8, up to the
first zero length or the first label cut short. -/
def labelParts : Nat → Bytes → List Bytes
  | 0, _ => []
  | _ + 1, [] => []
  | fuel + 1, len :: rest =>
      if len = 0 then []
      else if rest.length < len.toNat then []
      else
        let label := rest.take len.toNat
        let parts := labelParts fuel (rest.drop len.toNat)
        if validUtf8 label then label :: parts else parts

/-- `labels_to_string` -/
def labelsToString (labels : Bytes) : Bytes :=
  let parts := labelParts labels.length labels
  if parts.isEmpty then [46] else [46].intercalate parts

/-! ### Comparison -/

/-- The inner loop of `domain_names_equal`: `n` bytes of both names agree up to
ASCII case; the result is what follows them. -/
def labelBytesEqual : Nat → Bytes → Bytes → Option (Bytes × Bytes)
  | 0, a, b => some (a, b)
  | n + 1, x :: a, y :: b => if eqIgnoreAsciiCase x y then labelBytesEqual n a b else none
  | _ + 1, _, _ => none

def domainNamesEqualLoop : Nat → Bytes → Bytes → Bool
  | 0, _, _ => false
  | _ + 1, [], [] => true
  | _ + 1, [], _ :: _ => false
  | _ + 1, _ :: _, [] => false
  | fuel + 1, la :: a, lb :: b =>
      if la ≠ lb then false
      else if la = 0 then true
      else match labelBytesEqual la.toNat a b with
        | none => false
        | some (a, b) => domainNamesEqualLoop fuel a b

/-- `domain_names_equal` -/
def domainNamesEqual (a b : Bytes) : Bool := domainNamesEqualLoop (a.length + 1) a b

/-! ### Labels and suffixes -/

def countLabelsLoop : Nat → Bytes → Nat → Nat
  | 0, _, count => count
  | _ + 1, [], count => count
  | fuel + 1, len :: rest, count =>
      if len = 0 then count else countLabelsLoop fuel (rest.drop len.toNat) (count + 1)

/-- `count_labels` -/
def countLabels (name : Bytes) : Nat := countLabelsLoop name.length name 0

/-- The copying loop of `name_prefix`. The slice of a copied label panics when
the label is cut short. -/
def namePrefixLoop (skip : Nat) : Nat → Bytes → Nat → Bytes → DnsResult Bytes
  | 0, _, _, result => .ok result
  | _ + 1, [], _, result => .ok result
  | fuel + 1, len :: rest, count, result => do
      if len = 0 then .ok (result ++ [0])
      else
        let result ← if skip ≤ count then do
            let label ← slice rest 0 len.toNat
            pure (result ++ len :: label)
          else pure result
        namePrefixLoop skip fuel (rest.drop len.toNat) (count + 1) result

/-- `name_prefix`: the rightmost `n` labels of a name. -/
def namePrefix (name : Bytes) (n : Nat) : DnsResult Bytes := do
  let total := countLabels name
  if n ≥ total then .ok name
  else
    let result ← namePrefixLoop (total - n) name.length name 0 []
    if result.getLast? = some 0 then .ok result else .ok (result ++ [0])

theorem le_countLabelsLoop (fuel : Nat) (name : Bytes) (count : Nat) :
    count ≤ countLabelsLoop fuel name count := by
  induction fuel generalizing name count with
  | zero => exact le_refl count
  | succ fuel ih =>
      cases name with
      | nil => exact le_refl count
      | cons len rest =>
          unfold countLabelsLoop
          split
          · exact le_refl count
          · exact (Nat.le_succ count).trans (ih _ _)

/-- The labels that are left bound what the copying loop can still add. -/
theorem namePrefixLoop_length {skip fuel count : Nat} {name result copied : Bytes}
    (h : namePrefixLoop skip fuel name count result = .ok copied) :
    copied.length ≤
      result.length + 256 * (countLabelsLoop fuel name count - max skip count) + 1 := by
  induction fuel generalizing name count result with
  | zero =>
      cases h
      omega
  | succ fuel ih =>
      cases name with
      | nil =>
          cases h
          omega
      | cons len rest =>
          unfold namePrefixLoop at h
          unfold countLabelsLoop
          split at h
          · cases h
            simp only [List.length_append, List.length_singleton]
            omega
          · rename_i hlen
            rw [if_neg hlen]
            have hbound : count + 1 ≤ countLabelsLoop fuel (rest.drop len.toNat) (count + 1) :=
              le_countLabelsLoop fuel _ _
            dsimp only at h
            split at h
            · rename_i hcopy
              obtain ⟨label, hlabel, h⟩ := Outcome.bind_eq_ok.mp h
              have hlong : label.length ≤ 255 := by
                rw [length_of_slice_eq_ok hlabel, Nat.sub_zero]
                exact Nat.le_of_lt_succ len.toNat_lt
              have hrest := ih h
              simp only [List.length_append, List.length_cons] at hrest
              omega
            · exact (ih h).trans (by omega)

/-- A single label makes a short name. -/
theorem length_namePrefix_one {name qname : Bytes} (hlabels : 1 < countLabels name)
    (h : namePrefix name 1 = .ok qname) : qname.length ≤ 258 := by
  unfold namePrefix at h
  dsimp only at h
  rw [if_neg (Nat.not_le.mpr hlabels)] at h
  obtain ⟨copied, hcopied, h⟩ := Outcome.bind_eq_ok.mp h
  have hlength := namePrefixLoop_length hcopied
  have hone : countLabelsLoop name.length name 0 - max (countLabels name - 1) 0 = 1 := by
    change countLabels name - _ = 1
    omega
  rw [hone] at hlength
  simp only [List.length_nil] at hlength
  split at h <;> cases h <;> simp <;> omega

/-- Only the last label can be cut short, and every suffix has it. So if one
suffix can be copied, all can. -/
theorem namePrefixLoop_ok {skip fuel count : Nat} {name result copied : Bytes}
    (h : namePrefixLoop skip fuel name count result = .ok copied)
    (hlast : skip < countLabelsLoop fuel name count) (skip' : Nat) (result' : Bytes) :
    ∃ copied', namePrefixLoop skip' fuel name count result' = .ok copied' := by
  induction fuel generalizing name count result result' with
  | zero => exact ⟨_, rfl⟩
  | succ fuel ih =>
      cases name with
      | nil => exact ⟨_, rfl⟩
      | cons len rest =>
          unfold namePrefixLoop at h ⊢
          unfold countLabelsLoop at hlast
          by_cases hzero : len = 0
          · rw [if_pos hzero]
            exact ⟨_, rfl⟩
          rw [if_neg hzero] at h hlast ⊢
          have hwhole : len.toNat ≤ rest.length := by
            by_contra hshort
            have hnil : rest.drop len.toNat = [] := List.drop_eq_nil_of_le (by omega)
            have hone : countLabelsLoop fuel (rest.drop len.toNat) (count + 1) = count + 1 := by
              rw [hnil]
              cases fuel <;> rfl
            have hcopy : skip ≤ count := by omega
            rw [if_pos hcopy, slice, if_neg (by omega)] at h
            cases h
          have hslice : ∃ label, (slice rest 0 len.toNat : DnsResult Bytes) = .ok label :=
            ⟨_, if_pos ⟨Nat.zero_le _, hwhole⟩⟩
          obtain ⟨label, hlabel⟩ := hslice
          have hrest : ∃ result,
              namePrefixLoop skip fuel (rest.drop len.toNat) (count + 1) result = .ok copied := by
            dsimp only at h
            split at h
            · obtain ⟨label, _, h⟩ := Outcome.bind_eq_ok.mp h
              exact ⟨_, h⟩
            · exact ⟨_, h⟩
          obtain ⟨_, hrest⟩ := hrest
          by_cases hcopy : skip' ≤ count
          · rw [if_pos hcopy, hlabel, Outcome.ok_bind, Outcome.pure_eq, Outcome.ok_bind]
            exact ih hrest hlast _
          · rw [if_neg hcopy, Outcome.pure_eq, Outcome.ok_bind]
            exact ih hrest hlast _

/-- Copying a suffix ends with it or with a panic. -/
theorem namePrefixLoop_ends (skip fuel : Nat) (name : Bytes) (count : Nat) (result : Bytes) :
    (∃ copied, namePrefixLoop skip fuel name count result = .ok copied) ∨
      namePrefixLoop skip fuel name count result = .panic := by
  induction fuel generalizing name count result with
  | zero => exact .inl ⟨_, rfl⟩
  | succ fuel ih =>
      cases name with
      | nil => exact .inl ⟨_, rfl⟩
      | cons len rest =>
          unfold namePrefixLoop
          split
          · exact .inl ⟨_, rfl⟩
          dsimp only
          split
          · unfold slice
            split
            · exact ih _ _ _
            · exact .inr rfl
          · exact ih _ _ _

theorem namePrefix_ends (name : Bytes) (n : Nat) :
    (∃ zone, namePrefix name n = .ok zone) ∨ namePrefix name n = .panic := by
  unfold namePrefix
  dsimp only
  split
  · exact .inl ⟨_, rfl⟩
  rcases namePrefixLoop_ends (countLabels name - n) name.length name 0 [] with
    ⟨copied, hok⟩ | hpanic
  · rw [hok, Outcome.ok_bind]
    split
    · exact .inl ⟨_, rfl⟩
    · exact .inl ⟨_, rfl⟩
  · exact .inr (by rw [hpanic, Outcome.panic_bind])

/-- A name that has one suffix has all of them. -/
theorem namePrefix_ok {name zone : Bytes} {n : Nat} (hn : 0 < n) (h : namePrefix name n = .ok zone)
    (hlt : n < countLabels name) (m : Nat) : ∃ zone', namePrefix name m = .ok zone' := by
  unfold namePrefix at h ⊢
  dsimp only at h ⊢
  by_cases hall : m ≥ countLabels name
  · exact ⟨name, if_pos hall⟩
  rw [if_neg (Nat.not_le.mpr hlt)] at h
  rw [if_neg hall]
  obtain ⟨copied, hcopied, _⟩ := Outcome.bind_eq_ok.mp h
  obtain ⟨copied', hcopied'⟩ := namePrefixLoop_ok hcopied
    (show countLabels name - n < countLabels name by omega) (countLabels name - m) []
  rw [hcopied', Outcome.ok_bind]
  split
  · exact ⟨_, rfl⟩
  · exact ⟨_, rfl⟩

/-! ### Names in wire form -/

/-- The wire form of a list of labels. -/
def wireName : List Bytes → Bytes
  | [] => [0]
  | label :: labels => UInt8.ofNat label.length :: label ++ wireName labels

/-- The labels a name can be built from. -/
def LabelsOk (labels : List Bytes) : Prop := ∀ label ∈ labels, label ≠ [] ∧ label.length ≤ 63

section Wire

variable {labels : List Bytes}

theorem labelsOk_nil : LabelsOk [] := fun _ hl => absurd hl List.not_mem_nil

theorem labelsOk_cons {label : Bytes} :
    LabelsOk (label :: labels) ↔ (label ≠ [] ∧ label.length ≤ 63) ∧ LabelsOk labels :=
  List.forall_mem_cons

theorem LabelsOk.tail {label : Bytes} (h : LabelsOk (label :: labels)) : LabelsOk labels :=
  (labelsOk_cons.mp h).2

/-- The length byte of a label is the length of the label, and not zero. -/
theorem LabelsOk.toNat_length {label : Bytes} (h : LabelsOk (label :: labels)) :
    (UInt8.ofNat label.length).toNat = label.length := by
  have hle := (h label List.mem_cons_self).2
  rw [UInt8.toNat_ofNat']
  exact Nat.mod_eq_of_lt (by omega)

theorem LabelsOk.length_ne_zero {label : Bytes} (h : LabelsOk (label :: labels)) :
    UInt8.ofNat label.length ≠ 0 := by
  intro hzero
  have hlen := h.toNat_length
  rw [hzero] at hlen
  exact (h label List.mem_cons_self).1 (List.length_eq_zero_iff.mp hlen.symm)

/-- A loop over the labels of a name that has fuel up to the root. -/
inductive LabelWalk : Nat → List Bytes → Prop where
  | root (fuel : Nat) : LabelWalk (fuel + 1) []
  | label {fuel : Nat} {label : Bytes} {labels : List Bytes} : LabelsOk (label :: labels) →
      LabelWalk fuel labels → LabelWalk (fuel + 1) (label :: labels)

theorem LabelsOk.walk {fuel : Nat} (h : LabelsOk labels) (hfuel : labels.length < fuel) :
    LabelWalk fuel labels := by
  induction labels generalizing fuel with
  | nil =>
      obtain ⟨fuel, rfl⟩ := Nat.exists_eq_succ_of_ne_zero (Nat.ne_of_gt hfuel)
      exact .root fuel
  | cons label labels ih =>
      obtain ⟨fuel, rfl⟩ := Nat.exists_eq_succ_of_ne_zero (Nat.ne_zero_of_lt hfuel)
      exact .label h (ih h.tail (Nat.lt_of_succ_lt_succ hfuel))

theorem countLabelsLoop_wireName {fuel : Nat} (h : LabelWalk fuel labels) (count : Nat) :
    countLabelsLoop fuel (wireName labels) count = count + labels.length := by
  induction h generalizing count with
  | root fuel => rfl
  | label h _ ih =>
      simp only [wireName, List.cons_append, countLabelsLoop, if_neg h.length_ne_zero,
        h.toNat_length, List.drop_left]
      rw [ih (count + 1), List.length_cons]
      omega

theorem length_lt_wireName : labels.length < (wireName labels).length := by
  induction labels with
  | nil => decide
  | cons label labels ih =>
      simp only [wireName, List.length_cons, List.length_append]
      omega

/-- The loops have the length of the name as fuel. -/
theorem LabelsOk.walk_wireName (h : LabelsOk labels) : LabelWalk (wireName labels).length labels :=
  h.walk length_lt_wireName

theorem countLabels_wireName (h : LabelsOk labels) :
    countLabels (wireName labels) = labels.length := by
  rw [countLabels, countLabelsLoop_wireName h.walk_wireName 0, Nat.zero_add]

theorem namePrefixLoop_wireName {fuel : Nat} (h : LabelWalk fuel labels) (skip count : Nat)
    (result : Bytes) :
    namePrefixLoop skip fuel (wireName labels) count result =
      .ok (result ++ wireName (labels.drop (skip - count))) := by
  induction h generalizing count result with
  | root fuel => simp [namePrefixLoop, wireName]
  | @label fuel label labels h _ ih =>
      have hrest := ih (count + 1)
      simp only [wireName, List.cons_append, namePrefixLoop, if_neg h.length_ne_zero,
        h.toNat_length, List.drop_left]
      by_cases hcopy : skip ≤ count
      · have hslice : (slice (label ++ wireName labels) 0 label.length : DnsResult Bytes) =
            .ok label := by
          simp [slice]
        have hnone : skip - count = 0 := Nat.sub_eq_zero_of_le hcopy
        have hnone' : skip - (count + 1) = 0 := Nat.sub_eq_zero_of_le (Nat.le_succ_of_le hcopy)
        rw [if_pos hcopy, hslice, Outcome.ok_bind, Outcome.pure_eq, Outcome.ok_bind, hrest, hnone,
          hnone', List.drop_zero, List.drop_zero, wireName, List.append_assoc, List.cons_append]
      · have hskip : skip - count = skip - (count + 1) + 1 := by omega
        simp [hcopy, hrest, hskip]

theorem wireName_getLast? (labels : List Bytes) : (wireName labels).getLast? = some 0 := by
  induction labels with
  | nil => rfl
  | cons label labels ih =>
      rw [wireName, List.getLast?_append, ih]
      rfl

/-- `name_prefix` keeps the rightmost labels. -/
theorem namePrefix_wireName (h : LabelsOk labels) (n : Nat) :
    namePrefix (wireName labels) n = .ok (wireName (labels.drop (labels.length - n))) := by
  unfold namePrefix
  rw [countLabels_wireName h]
  dsimp only
  split
  · rename_i hall
    rw [Nat.sub_eq_zero_of_le hall, List.drop_zero]
  · rw [namePrefixLoop_wireName h.walk_wireName _ 0 [], Outcome.ok_bind, List.nil_append,
      Nat.sub_zero, if_pos (wireName_getLast? _)]

theorem length_wireName_le (h : LabelsOk labels) :
    (wireName labels).length ≤ 64 * labels.length + 1 := by
  induction labels with
  | nil => decide
  | cons label labels ih =>
      have hlabel := (h label List.mem_cons_self).2
      have hrest := ih h.tail
      simp only [wireName, List.length_cons, List.length_append]
      omega

/-- Encoding fails with an error or not at all. -/
theorem encodeLabels_ends (labels : List Bytes) :
    (∃ encoded, encodeLabels labels = .ok encoded) ∨ ∃ e, encodeLabels labels = .err e := by
  induction labels with
  | nil => exact .inl ⟨_, rfl⟩
  | cons label labels ih =>
      unfold encodeLabels
      split
      · exact .inr ⟨_, rfl⟩
      split
      · exact .inr ⟨_, rfl⟩
      rcases ih with ⟨encoded, hok⟩ | ⟨e, herr⟩
      · exact .inl ⟨_, by rw [hok, Outcome.ok_bind, Outcome.pure_eq]⟩
      · exact .inr ⟨e, by rw [herr, Outcome.err_bind]⟩

theorem encodeDomainName_ends (name : Bytes) :
    (∃ encoded, encodeDomainName name = .ok encoded) ∨ ∃ e, encodeDomainName name = .err e := by
  unfold encodeDomainName
  dsimp only
  split
  · exact .inl ⟨_, rfl⟩
  rcases encodeLabels_ends ((trimEndDots name).splitOn 46) with ⟨encoded, hok⟩ | ⟨e, herr⟩
  · exact .inl ⟨_, by rw [hok, Outcome.ok_bind, Outcome.pure_eq]⟩
  · exact .inr ⟨e, by rw [herr, Outcome.err_bind]⟩

theorem encodeLabels_eq_ok {labels : List Bytes} {encoded : Bytes}
    (h : encodeLabels labels = .ok encoded) :
    LabelsOk (labels.map (List.map asciiLower)) ∧
      encoded ++ [0] = wireName (labels.map (List.map asciiLower)) := by
  induction labels generalizing encoded with
  | nil =>
      cases h
      exact ⟨labelsOk_nil, rfl⟩
  | cons label labels ih =>
      unfold encodeLabels at h
      split at h
      · cases h
      split at h
      · cases h
      rename_i hne hlen
      obtain ⟨rest, hrest, hpure⟩ := Outcome.bind_eq_ok.mp h
      cases hpure
      obtain ⟨hok, hwire⟩ := ih hrest
      constructor
      · simp only [List.isEmpty_iff] at hne
        exact labelsOk_cons.mpr ⟨⟨by simpa using hne, by simpa using hlen⟩, hok⟩
      · simp [wireName, ← hwire]

/-- `encode_domain_name` returns the wire form of proper labels. -/
theorem encodeDomainName_eq_ok {name encoded : Bytes} (h : encodeDomainName name = .ok encoded) :
    ∃ labels, LabelsOk labels ∧ encoded = wireName labels := by
  unfold encodeDomainName at h
  dsimp only at h
  split at h
  · cases h
    exact ⟨[], labelsOk_nil, rfl⟩
  · obtain ⟨body, hbody, hpure⟩ := Outcome.bind_eq_ok.mp h
    cases hpure
    obtain ⟨hok, hwire⟩ := encodeLabels_eq_ok hbody
    exact ⟨_, hok, hwire⟩

end Wire

/-! ### The specification's view of a name -/

def labelsLoop : Nat → Bytes → List Bytes
  | 0, _ => []
  | _ + 1, [] => []
  | fuel + 1, len :: rest =>
      if len = 0 then [] else rest.take len.toNat :: labelsLoop fuel (rest.drop len.toNat)

/-- The labels of a name, lower-cased, leftmost first. -/
def labelsOf (name : Bytes) : List Bytes :=
  (labelsLoop name.length name).map fun label => label.map asciiLower

/-- `name` is `zone` or lies below it. -/
def IsSubdomain (name zone : Bytes) : Prop := labelsOf zone <:+ labelsOf name

instance (name zone : Bytes) : Decidable (IsSubdomain name zone) :=
  inferInstanceAs (Decidable (labelsOf zone <:+ labelsOf name))

end FastDns.Dns
