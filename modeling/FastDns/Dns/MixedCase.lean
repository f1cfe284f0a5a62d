/-
Names with random case (`src/dns/types.rs`: `encode_domain_name_mixed`).

The letters of a name carry the bits of a mask, which begins again where it ends.
With a mask the encoder accepts the texts that `encode_domain_name` accepts and
writes the same name up to case, and the letters show which bits they were given
(`mixed_agrees`). So two masks give the same bytes exactly if they agree on as many
bits as there are letters (`mixed_eq_iff`). Without a mask the first letter makes
the index panic (`mixed_panics_iff`).
-/

import FastDns.Dns.TextForm

namespace FastDns.Dns

open FastDns.Lib

/-- `is_ascii_alphabetic` -/
def isAsciiAlphabetic (b : UInt8) : Bool := 0x41 ≤ b && b ≤ 0x5A || 0x61 ≤ b && b ≤ 0x7A

/-- The loop over the bytes of a label: what is written, and the next bit. -/
def mixBytes (mask : List Bool) : Bytes → Nat → DnsResult (Bytes × Nat)
  | [], bitIdx => .ok ([], bitIdx)
  | b :: rest, bitIdx =>
      if isAsciiAlphabetic b then
        -- `bit_idx % mask.len()` for an empty mask.
        if mask = [] then .panic
        else do
          let flip := mask.getD (bitIdx % mask.length) false
          let (encoded, bitIdx) ← mixBytes mask rest (bitIdx + 1)
          pure ((if flip then b ^^^ 0x20 else b) :: encoded, bitIdx)
      else do
        let (encoded, bitIdx) ← mixBytes mask rest bitIdx
        pure (b :: encoded, bitIdx)

/-- The loop over the labels. -/
def mixLabels (mask : List Bool) : List Bytes → Nat → DnsResult Bytes
  | [], _ => .ok []
  | label :: labels, bitIdx =>
      if label.isEmpty then .err (.invalidLabel "empty label in domain name")
      else if label.length > 63 then .err (.invalidLabel "label exceeds 63 characters")
      else do
        let (mixed, bitIdx) ← mixBytes mask label bitIdx
        let encoded ← mixLabels mask labels bitIdx
        pure (UInt8.ofNat label.length :: mixed ++ encoded)

/-- `encode_domain_name_mixed` -/
def encodeDomainNameMixed (name : Bytes) (mask : List Bool) : DnsResult Bytes := do
  let name := trimEndDots name
  if name.isEmpty then .ok [0]
  else
    let encoded ← mixLabels mask (name.splitOn 46) 0
    pure (encoded ++ [0])

/-! ### Bits of letters -/

def isUpper (b : UInt8) : Bool := 0x41 ≤ b && b ≤ 0x5A

/-- Which of the letters are upper case. -/
def caseBits (bytes : Bytes) : List Bool := (bytes.filter isAsciiAlphabetic).map isUpper

/-- The bits, changed by those of the mask from the place `bitIdx` on. -/
def flipBits (mask : List Bool) (bitIdx : Nat) (bits : List Bool) : List Bool :=
  (bits.zipIdx bitIdx).map fun (bit, i) => bit ^^ mask.getD (i % mask.length) false

section Bits

variable {mask mask' : List Bool} {a b : UInt8} {bytes bytes' : Bytes} {bitIdx : Nat}

@[simp] theorem caseBits_nil : caseBits [] = [] := rfl

theorem caseBits_cons (b : UInt8) (bytes : Bytes) :
    caseBits (b :: bytes) =
      if isAsciiAlphabetic b then isUpper b :: caseBits bytes else caseBits bytes := by
  unfold caseBits
  rw [List.filter_cons]
  split <;> rfl

@[simp] theorem caseBits_append (bytes bytes' : Bytes) :
    caseBits (bytes ++ bytes') = caseBits bytes ++ caseBits bytes' := by
  simp [caseBits]

@[simp] theorem flipBits_nil : flipBits mask bitIdx [] = [] := rfl

@[simp] theorem flipBits_cons (bit : Bool) (bits : List Bool) :
    flipBits mask bitIdx (bit :: bits) =
      (bit ^^ mask.getD (bitIdx % mask.length) false) :: flipBits mask (bitIdx + 1) bits := rfl

theorem flipBits_append (bits bits' : List Bool) :
    flipBits mask bitIdx (bits ++ bits') =
      flipBits mask bitIdx bits ++ flipBits mask (bitIdx + bits.length) bits' := by
  simp [flipBits, List.zipIdx_append]

theorem forall_byte {P : UInt8 → Prop} (h : ∀ n : Fin 256, P (UInt8.ofNat n)) (b : UInt8) :
    P b := by
  have hb := h ⟨b.toNat, b.toNat_lt⟩
  rwa [UInt8.ofNat_toNat] at hb

/-- The bit 0x20 is the case of a letter, and nothing else. -/
theorem toggle : ∀ b, isAsciiAlphabetic b = true →
    asciiLower (b ^^^ 0x20) = asciiLower b ∧ isAsciiAlphabetic (b ^^^ 0x20) = true ∧
      isUpper (b ^^^ 0x20) = !isUpper b :=
  forall_byte (by decide +kernel)

theorem isAsciiAlphabetic_asciiLower :
    ∀ b, isAsciiAlphabetic (asciiLower b) = isAsciiAlphabetic b :=
  forall_byte (by decide +kernel)

theorem isUpper_eq_false (h : ¬ isAsciiAlphabetic b = true) : isUpper b = false :=
  (Bool.or_eq_false_iff.mp (Bool.not_eq_true _ ▸ h)).1

/-- Lower case and the case of the letters are all there is to a byte. -/
theorem eq_of_lower (hlower : asciiLower a = asciiLower b) (hupper : isUpper a = isUpper b) :
    a = b := by
  have hcases : ∀ b, asciiLower b = if isUpper b then b + 0x20 else b := fun _ => rfl
  rw [hcases, hcases, hupper] at hlower
  split at hlower
  · exact (UInt8.add_left_inj _).mp hlower
  · exact hlower

/-- A name is settled by its lower case and the bits of its letters. -/
theorem eq_of_caseBits (hlower : bytes.map asciiLower = bytes'.map asciiLower)
    (hbits : caseBits bytes = caseBits bytes') : bytes = bytes' := by
  induction bytes generalizing bytes' with
  | nil =>
      rw [List.map_nil, eq_comm, List.map_eq_nil_iff] at hlower
      exact hlower.symm
  | cons a bytes ih =>
      cases bytes' with
      | nil => cases hlower
      | cons b bytes' =>
          rw [List.map_cons, List.map_cons, List.cons.injEq] at hlower
          have hletter : isAsciiAlphabetic a = isAsciiAlphabetic b := by
            rw [← isAsciiAlphabetic_asciiLower a, hlower.1, isAsciiAlphabetic_asciiLower]
          rw [caseBits_cons, caseBits_cons, hletter] at hbits
          split at hbits
          · obtain ⟨hupper, hrest⟩ := List.cons.inj hbits
            rw [eq_of_lower hlower.1 hupper, ih hlower.2 hrest]
          · rename_i hother
            have hupper : isUpper a = isUpper b := by
              rw [isUpper_eq_false hother, isUpper_eq_false (hletter ▸ hother)]
            rw [eq_of_lower hlower.1 hupper, ih hlower.2 hbits]

end Bits

/-! ### Labels -/

section Labels

variable {mask : List Bool} {labels : List Bytes}

/-- The loop over a label, with a mask. -/
theorem mixBytes_of_mask (hmask : mask ≠ []) (label : Bytes) (bitIdx : Nat) :
    ∃ mixed, mixBytes mask label bitIdx = .ok (mixed, bitIdx + (caseBits label).length) ∧
      mixed.map asciiLower = label.map asciiLower ∧
      caseBits mixed = flipBits mask bitIdx (caseBits label) := by
  induction label generalizing bitIdx with
  | nil => exact ⟨[], rfl, rfl, rfl⟩
  | cons b label ih =>
      by_cases hletter : isAsciiAlphabetic b = true
      · obtain ⟨mixed, hok, hlower, hbits⟩ := ih (bitIdx + 1)
        obtain ⟨htoggle, hstays, hflips⟩ := toggle b hletter
        refine ⟨(if mask.getD (bitIdx % mask.length) false then b ^^^ 0x20 else b) :: mixed,
          ?_, ?_, ?_⟩
        · rw [mixBytes, if_pos hletter, if_neg hmask, hok, caseBits_cons, if_pos hletter,
            List.length_cons, Nat.add_right_comm]
          rfl
        · rw [List.map_cons, hlower, List.map_cons]
          split
          · rw [htoggle]
          · rfl
        · rw [caseBits_cons, caseBits_cons b, if_pos hletter, flipBits_cons, ← hbits]
          cases mask.getD (bitIdx % mask.length) false with
          | true => simp [hstays, hflips]
          | false => simp [hletter]
      · obtain ⟨mixed, hok, hlower, hbits⟩ := ih bitIdx
        refine ⟨b :: mixed, ?_, ?_, ?_⟩
        · rw [mixBytes, if_neg hletter, hok, caseBits_cons, if_neg hletter]
          rfl
        · rw [List.map_cons, hlower, List.map_cons]
        · rw [caseBits_cons, caseBits_cons b, if_neg hletter, hbits]
          simp [hletter]

/-- A length byte is no letter. -/
theorem length_byte {n : Nat} (h : n ≤ 63) :
    isAsciiAlphabetic (UInt8.ofNat n) = false ∧ asciiLower (UInt8.ofNat n) = UInt8.ofNat n := by
  have hall : ∀ n : Fin 64, isAsciiAlphabetic (UInt8.ofNat n) = false ∧
      asciiLower (UInt8.ofNat n) = UInt8.ofNat n := by
    decide
  exact hall ⟨n, by omega⟩

/-- Both loops accept the same labels, with the same errors. -/
theorem mixLabels_of_mask (hmask : mask ≠ []) (labels : List Bytes) (bitIdx : Nat) :
    (∀ e, encodeLabels labels = .err e → mixLabels mask labels bitIdx = .err e) ∧
      ∀ plain, encodeLabels labels = .ok plain → ∃ mixed,
        mixLabels mask labels bitIdx = .ok mixed ∧ mixed.map asciiLower = plain ∧
          caseBits mixed = flipBits mask bitIdx (caseBits labels.flatten) := by
  induction labels generalizing bitIdx with
  | nil =>
      refine ⟨fun _ h => (by cases h), fun plain hplain => ?_⟩
      cases hplain
      exact ⟨[], rfl, rfl, rfl⟩
  | cons label labels ih =>
      rw [encodeLabels, mixLabels]
      by_cases hempty : label.isEmpty = true
      · rw [if_pos hempty, if_pos hempty]
        exact ⟨fun _ h => h, fun _ h => by cases h⟩
      rw [if_neg hempty, if_neg hempty]
      by_cases hlong : label.length > 63
      · rw [if_pos hlong, if_pos hlong]
        exact ⟨fun _ h => h, fun _ h => by cases h⟩
      rw [if_neg hlong, if_neg hlong]
      obtain ⟨mixed, hok, hlower, hbits⟩ := mixBytes_of_mask hmask label bitIdx
      obtain ⟨herr, hrest⟩ := ih (bitIdx + (caseBits label).length)
      obtain ⟨hletter, hlength⟩ := length_byte (Nat.le_of_not_lt hlong)
      rw [hok, Outcome.ok_bind]
      rcases encodeLabels_ends labels with ⟨plain, hplain⟩ | ⟨e, he⟩
      · obtain ⟨encoded, hencoded, hsame, hbehind⟩ := hrest plain hplain
        dsimp only
        rw [hplain, hencoded, Outcome.ok_bind, Outcome.ok_bind]
        refine ⟨fun _ h => (by cases h), fun whole hwhole => ?_⟩
        cases hwhole
        refine ⟨_, rfl, ?_, ?_⟩
        · rw [List.cons_append, List.map_cons, List.map_append, hlower, hsame, hlength,
            List.cons_append]
        · rw [List.cons_append, caseBits_cons, hletter, caseBits_append, hbits, hbehind,
            List.flatten_cons, caseBits_append, flipBits_append]
          rfl
      · dsimp only
        rw [he, herr e he, Outcome.err_bind, Outcome.err_bind]
        exact ⟨fun _ h => h, fun _ h => by cases h⟩

end Labels

/-! ### Names -/

section Names

variable {name : Bytes} {mask mask' : List Bool}

/-- A dot is no letter. -/
theorem caseBits_intercalate (parts : List Bytes) :
    caseBits ([46].intercalate parts) = caseBits parts.flatten := by
  induction parts with
  | nil => rfl
  | cons part parts ih =>
      cases parts with
      | nil => simp [List.intercalate]
      | cons second parts =>
          rw [List.intercalate_cons_cons, List.append_assoc, caseBits_append, caseBits_append, ih]
          simp [caseBits, isAsciiAlphabetic]

theorem caseBits_trimEndDots (name : Bytes) : caseBits (trimEndDots name) = caseBits name := by
  unfold trimEndDots
  induction name using List.reverseRecOn with
  | nil => rfl
  | append_singleton name b ih =>
      rw [List.rdropWhile_concat]
      split
      · rename_i hdot
        rw [ih, caseBits_append, eq_of_beq hdot]
        simp [caseBits, isAsciiAlphabetic]
      · rfl

/-- **The plain and the mixed encoder**: with a mask they accept the same texts, with
the same errors otherwise. They write the same name up to case, and each letter has
its case changed exactly by its bit of the mask. -/
theorem mixed_agrees (name : Bytes) (mask : List Bool) (hmask : mask ≠ []) :
    (∀ e, encodeDomainNameMixed name mask = .err e ↔ encodeDomainName name = .err e) ∧
      ∀ plain, encodeDomainName name = .ok plain → ∃ mixed,
        encodeDomainNameMixed name mask = .ok mixed ∧ mixed.map asciiLower = plain ∧
          caseBits mixed = flipBits mask 0 (caseBits name) := by
  have hbits : caseBits ((trimEndDots name).splitOn 46).flatten = caseBits name := by
    rw [← caseBits_intercalate, List.intercalate_splitOn, caseBits_trimEndDots]
  obtain ⟨herr, hok⟩ := mixLabels_of_mask hmask ((trimEndDots name).splitOn 46) 0
  unfold encodeDomainNameMixed encodeDomainName
  dsimp only
  by_cases hroot : (trimEndDots name).isEmpty = true
  · rw [if_pos hroot, if_pos hroot]
    refine ⟨fun e => Iff.rfl, fun plain hplain => ?_⟩
    cases hplain
    refine ⟨[0], rfl, rfl, ?_⟩
    rw [← caseBits_trimEndDots name, List.isEmpty_iff.mp hroot]
    rfl
  · rw [if_neg hroot, if_neg hroot]
    rcases encodeLabels_ends ((trimEndDots name).splitOn 46) with ⟨plain, hplain⟩ | ⟨e, he⟩
    · obtain ⟨mixed, hmixed, hlower, hcase⟩ := hok plain hplain
      rw [hplain, hmixed, Outcome.ok_bind, Outcome.ok_bind]
      refine ⟨fun e => iff_of_false nofun nofun, fun whole hwhole => ?_⟩
      cases hwhole
      refine ⟨_, rfl, ?_, ?_⟩
      · rw [List.map_append, hlower]
        rfl
      · rw [caseBits_append, hcase, hbits]
        exact List.append_nil _
    · rw [he, herr e he, Outcome.err_bind]
      exact ⟨fun _ => Iff.rfl, fun _ h => by cases h⟩

/-- A name of three letters in one label, and a mask of two bits. -/
theorem mixed_agrees_abc :
    (∀ e, encodeDomainNameMixed [97, 98, 99] [true, false] = .err e ↔
      encodeDomainName [97, 98, 99] = .err e) ∧
      ∀ plain, encodeDomainName [97, 98, 99] = .ok plain → ∃ mixed,
        encodeDomainNameMixed [97, 98, 99] [true, false] = .ok mixed ∧
          mixed.map asciiLower = plain ∧
          caseBits mixed = flipBits [true, false] 0 (caseBits [97, 98, 99]) :=
  mixed_agrees [97, 98, 99] [true, false] (by decide)

theorem flipBits_eq_iff (bits : List Bool) (bitIdx : Nat) :
    flipBits mask bitIdx bits = flipBits mask' bitIdx bits ↔
      ∀ i < bits.length, mask.getD ((bitIdx + i) % mask.length) false =
        mask'.getD ((bitIdx + i) % mask'.length) false := by
  induction bits generalizing bitIdx with
  | nil => simp
  | cons bit bits ih =>
      rw [flipBits_cons, flipBits_cons, List.cons.injEq, Bool.xor_right_inj, ih, List.length_cons,
        Nat.forall_lt_succ_left]
      refine and_congr Iff.rfl (forall₂_congr fun i _ => ?_)
      rw [Nat.add_right_comm, Nat.add_assoc bitIdx]

/-- **What a mask adds to a name**: two masks give the same bytes if and only if they
agree on the bits of the letters. -/
theorem mixed_eq_iff {plain : Bytes} (hplain : encodeDomainName name = .ok plain)
    (hmask : mask ≠ []) (hmask' : mask' ≠ []) :
    encodeDomainNameMixed name mask = encodeDomainNameMixed name mask' ↔
      ∀ i < (caseBits name).length, mask.getD (i % mask.length) false =
        mask'.getD (i % mask'.length) false := by
  obtain ⟨mixed, hmixed, hlower, hbits⟩ := (mixed_agrees name mask hmask).2 plain hplain
  obtain ⟨mixed', hmixed', hlower', hbits'⟩ := (mixed_agrees name mask' hmask').2 plain hplain
  have hiff : flipBits mask 0 (caseBits name) = flipBits mask' 0 (caseBits name) ↔ _ :=
    flipBits_eq_iff (caseBits name) 0
  rw [← hbits, ← hbits'] at hiff
  simp only [Nat.zero_add] at hiff
  rw [hmixed, hmixed', Outcome.ok.injEq, ← hiff]
  constructor
  · rintro rfl
    rfl
  · exact eq_of_caseBits (hlower.trans hlower'.symm)

theorem mixed_eq_iff_abc :
    encodeDomainNameMixed [97, 98, 99] [true, false] =
        encodeDomainNameMixed [97, 98, 99] [true, false, true, true] ↔
      ∀ i < (caseBits [97, 98, 99]).length, [true, false].getD (i % 2) false =
        [true, false, true, true].getD (i % 4) false :=
  mixed_eq_iff (show encodeDomainName [97, 98, 99] = .ok [3, 97, 98, 99, 0] by decide)
    (by decide) (by decide)

/-! ### Without a mask -/

/-- The labels that the encoder gets through. -/
def fits (label : Bytes) : Bool := !label.isEmpty && label.length ≤ 63

theorem mixBytes_nil (label : Bytes) (bitIdx : Nat) :
    mixBytes [] label bitIdx = if caseBits label = [] then .ok (label, bitIdx) else .panic := by
  induction label with
  | nil => rfl
  | cons b label ih =>
      rw [mixBytes, caseBits_cons]
      by_cases hletter : isAsciiAlphabetic b = true
      · rw [if_pos hletter, if_pos rfl, if_pos hletter, if_neg (List.cons_ne_nil _ _)]
      · rw [if_neg hletter, if_neg hletter, ih]
        by_cases hnone : caseBits label = []
        · rw [if_pos hnone, if_pos hnone]
          rfl
        · rw [if_neg hnone, if_neg hnone]
          rfl

theorem mixLabels_nil_panics_iff (labels : List Bytes) (bitIdx : Nat) :
    mixLabels [] labels bitIdx = .panic ↔ ∃ label ∈ labels.takeWhile fits, caseBits label ≠ [] := by
  induction labels generalizing bitIdx with
  | nil => simp [mixLabels]
  | cons label labels ih =>
      rw [mixLabels, List.takeWhile_cons]
      by_cases hempty : label.isEmpty = true
      · simp [fits, hempty]
      by_cases hlong : label.length > 63
      · simp [fits, hempty, hlong]
      have hfits : fits label = true := by simp [fits, hempty, Nat.le_of_not_lt hlong]
      rw [if_neg hempty, if_neg hlong, mixBytes_nil, hfits, if_pos rfl,
        List.exists_mem_cons_iff]
      by_cases hnone : caseBits label = []
      · rw [if_pos hnone, Outcome.ok_bind, Outcome.bind_eq_panic, ih bitIdx]
        simp [hnone]
      · rw [if_neg hnone]
        exact iff_of_true rfl (.inl hnone)

/-- **When the index panics**: exactly for an empty mask, and a letter in front of
every label that is refused. -/
theorem mixed_panics_iff (name : Bytes) (mask : List Bool) :
    encodeDomainNameMixed name mask = .panic ↔
      mask = [] ∧ ∃ label ∈ (textLabels name).takeWhile fits, caseBits label ≠ [] := by
  by_cases hmask : mask = []
  · subst hmask
    unfold encodeDomainNameMixed textLabels
    dsimp only
    by_cases hroot : trimEndDots name = []
    · simp [hroot]
    · rw [if_neg (by simpa using hroot), if_neg hroot, Outcome.bind_eq_panic,
        mixLabels_nil_panics_iff]
      simp
  · refine iff_of_false (fun hpanic => ?_) fun h => hmask h.1
    obtain ⟨herr, hok⟩ := mixed_agrees name mask hmask
    rcases encodeDomainName_ends name with ⟨plain, hplain⟩ | ⟨e, he⟩
    · obtain ⟨mixed, hmixed, _⟩ := hok plain hplain
      rw [hpanic] at hmixed
      cases hmixed
    · have hmixed := (herr e).mpr he
      rw [hpanic] at hmixed
      cases hmixed

end Names

end FastDns.Dns
