/-
The validity window of a signature in serial arithmetic.

`InSerialWindow` is the window with all three comparisons made modulo 2^32. For
clocks that do not wrap it is the plain window with five minutes of slack
(`inSerialWindow_ofNat`). `is_rrsig_time_valid` makes the comparison with the
slack on the wrapped numbers themselves, so it keeps to the window exactly if the
difference and the sum in that comparison wrap together (`slackAgrees_iff`,
`rrsigTimeValid_serial_iff`).
-/

import FastDns.Dnssec.Validate

namespace FastDns.Dnssec

/-! ### The window -/

/-- `now` is not before the inception, or before it by five minutes at most, and
not after the expiration, all modulo 2^32. -/
def InSerialWindow (now expiration inception : UInt32) : Prop :=
  (now - inception < 0x80000000 ∨ inception - now ≤ 300) ∧ expiration - now < 0x80000000

instance (now expiration inception : UInt32) :
    Decidable (InSerialWindow now expiration inception) :=
  inferInstanceAs (Decidable (_ ∧ _))

/-- On a clock that counts on, with the two ends less than 2^31 seconds away, the
window is the interval from five minutes before the inception to the expiration. -/
theorem inSerialWindow_ofNat (now expiration inception : Nat) (hpast : now < inception + 2 ^ 31)
    (hfuture : inception ≤ now + 2 ^ 31) (hexpired : now ≤ expiration + 2 ^ 31)
    (hfresh : expiration < now + 2 ^ 31) :
    InSerialWindow (.ofNat now) (.ofNat expiration) (.ofNat inception) ↔
      inception ≤ now + 300 ∧ now ≤ expiration := by
  simp only [InSerialWindow, UInt32.lt_iff_toNat_lt, UInt32.le_iff_toNat_le, UInt32.toNat_sub,
    UInt32.toNat_ofNat', UInt32.reduceToNat]
  omega

/-! ### What is computed -/

section Slack

variable {now expiration inception : UInt32}

theorem isRrsigTimeValid_eq_true :
    isRrsigTimeValid now expiration inception = true ↔
      (now - inception < 0x80000000 ∨ inception ≤ now + 300) ∧ expiration - now < 0x80000000 := by
  simp [isRrsigTimeValid]

/-- For an inception that lies ahead, the comparison of the wrapped numbers is the
comparison of the distance exactly if the sum wraps where the distance does. -/
theorem slackAgrees_iff (hahead : ¬ now - inception < 0x80000000) :
    (inception ≤ now + 300 ↔ inception - now ≤ 300) ↔
      (now < inception ↔ now.toNat + 300 < 2 ^ 32) := by
  have hnow := now.toNat_lt
  have hinception := inception.toNat_lt
  simp only [UInt32.lt_iff_toNat_lt, UInt32.le_iff_toNat_le, UInt32.toNat_sub, UInt32.toNat_add,
    UInt32.reduceToNat] at hahead ⊢
  -- One case for each of the two wraps.
  omega

end Slack

/-- **When the check keeps to the window**: for an expired signature, one whose
inception has passed, and otherwise if `inception - now` and `now + 300` wrap
together or neither does. -/
theorem rrsigTimeValid_serial_iff (now expiration inception : UInt32) :
    (isRrsigTimeValid now expiration inception = true ↔
      InSerialWindow now expiration inception) ↔
      0x80000000 ≤ expiration - now ∨ now - inception < 0x80000000 ∨
        (now < inception ↔ now.toNat + 300 < 2 ^ 32) := by
  rw [isRrsigTimeValid_eq_true, InSerialWindow]
  by_cases hexpired : expiration - now < 0x80000000
  · have hlive : ¬ 0x80000000 ≤ expiration - now := UInt32.not_le.mpr hexpired
    by_cases hpassed : now - inception < 0x80000000
    · simp only [hpassed, hexpired, true_or, true_and, or_true]
    · rw [← slackAgrees_iff hpassed]
      simp only [hpassed, hexpired, hlive, false_or, and_true]
  · simp only [hexpired, and_false, UInt32.not_lt.mp hexpired, true_or]

/-- A hundred seconds before the inception and shortly before the wrap, the
signature is refused; a thousand seconds before the wrap, one that begins a
thousand seconds after it is accepted. -/
theorem serial_window_missed :
    ¬ (∀ now expiration inception : UInt32,
      isRrsigTimeValid now expiration inception = true ↔
        InSerialWindow now expiration inception) ∧
    (isRrsigTimeValid 4294967096 3600 4294967196 = false ∧
      InSerialWindow 4294967096 3600 4294967196) ∧
    (isRrsigTimeValid 4294966296 3600 1000 = true ∧ ¬ InSerialWindow 4294966296 3600 1000) := by
  have hrefused : isRrsigTimeValid 4294967096 3600 4294967196 = false ∧
      InSerialWindow 4294967096 3600 4294967196 := by decide
  refine ⟨fun hall => ?_, hrefused, by decide⟩
  have haccepted := (hall 4294967096 3600 4294967196).mpr hrefused.2
  rw [hrefused.1] at haccepted
  cases haccepted

end FastDns.Dnssec
