/-
Outcomes of one call of a program with error values, run-time panics and loops
that may not end.

`Outcome ε α` separates four ends of a call: a value, an error the callee
returns on purpose, a panic (an index or a slice out of range, an underflowing
subtraction), and a loop that never returns. Errors, panics and divergence all
propagate through `bind`; only errors can be caught (`Outcome.attempt`). The
inversion lemmas below say how a composite reached its end, so that a proof
about a parser never unfolds `bind` by hand.
-/

import Mathlib.Logic.Basic
import Mathlib.Tactic.Common

namespace FastDns.Lib

/-- How a call ends. -/
inductive Outcome (ε α : Type) where
  | ok (value : α)
  | err (error : ε)
  | panic
  | diverge
deriving DecidableEq, Repr

namespace Outcome

variable {ε α β : Type}

/-- Sequencing: only a value continues. -/
def bind (x : Outcome ε α) (f : α → Outcome ε β) : Outcome ε β :=
  match x with
  | .ok a => f a
  | .err e => .err e
  | .panic => .panic
  | .diverge => .diverge

instance : Monad (Outcome ε) where
  pure := .ok
  bind := bind

/-- Catch an error, as `match call() { Ok(..) => .., Err(_) => .. }` does. A
panic or a divergent loop cannot be caught. -/
def attempt (x : Outcome ε α) : Outcome ε (Except ε α) :=
  match x with
  | .ok a => .ok (.ok a)
  | .err e => .ok (.error e)
  | .panic => .panic
  | .diverge => .diverge

/-- A checked access: the value, or a panic. -/
def orPanic (x : Option α) : Outcome ε α :=
  match x with
  | some a => .ok a
  | none => .panic

/-- The value, if there is one. -/
def toOption (x : Outcome ε α) : Option α :=
  match x with
  | .ok a => some a
  | _ => none

theorem toOption_eq_some {x : Outcome ε α} {a : α} : x.toOption = some a ↔ x = .ok a := by
  cases x <;> simp [toOption]

@[simp] theorem pure_eq (a : α) : (pure a : Outcome ε α) = .ok a := rfl
@[simp] theorem ok_bind (a : α) (f : α → Outcome ε β) : (Outcome.ok a >>= f) = f a := rfl
@[simp] theorem err_bind (e : ε) (f : α → Outcome ε β) : (Outcome.err e >>= f) = .err e := rfl
@[simp] theorem panic_bind (f : α → Outcome ε β) : (Outcome.panic >>= f) = .panic := rfl
@[simp] theorem diverge_bind (f : α → Outcome ε β) : (Outcome.diverge >>= f) = .diverge := rfl

@[simp] theorem attempt_ok (a : α) : attempt (.ok a : Outcome ε α) = .ok (.ok a) := rfl
@[simp] theorem attempt_err (e : ε) : attempt (.err e : Outcome ε α) = .ok (.error e) := rfl
@[simp] theorem attempt_panic : attempt (.panic : Outcome ε α) = .panic := rfl
@[simp] theorem attempt_diverge : attempt (.diverge : Outcome ε α) = .diverge := rfl

@[simp] theorem orPanic_some (a : α) : (orPanic (some a) : Outcome ε α) = .ok a := rfl
@[simp] theorem orPanic_none : (orPanic (none : Option α) : Outcome ε α) = .panic := rfl

/-- A composite returns a value exactly when both parts do. -/
theorem bind_eq_ok {x : Outcome ε α} {f : α → Outcome ε β} {b : β} :
    (x >>= f) = .ok b ↔ ∃ a, x = .ok a ∧ f a = .ok b := by
  cases x <;> simp

/-- A composite panics in its first part, or in its second. -/
theorem bind_eq_panic {x : Outcome ε α} {f : α → Outcome ε β} :
    (x >>= f) = .panic ↔ x = .panic ∨ ∃ a, x = .ok a ∧ f a = .panic := by
  cases x <;> simp

/-- A composite diverges in its first part, or in its second. -/
theorem bind_eq_diverge {x : Outcome ε α} {f : α → Outcome ε β} :
    (x >>= f) = .diverge ↔ x = .diverge ∨ ∃ a, x = .ok a ∧ f a = .diverge := by
  cases x <;> simp

@[simp] theorem attempt_eq_panic {x : Outcome ε α} : attempt x = .panic ↔ x = .panic := by
  cases x <;> simp

@[simp] theorem attempt_eq_diverge {x : Outcome ε α} : attempt x = .diverge ↔ x = .diverge := by
  cases x <;> simp

/-! ### Endings

For the question whether a call comes back at all, a value and an error are the
same: the call returned. -/

/-- How a call ends, seen from outside. -/
inductive Ending where
  | returned
  | panicked
  | diverged
deriving DecidableEq, Repr

def ending : Outcome ε α → Ending
  | .ok _ => .returned
  | .err _ => .returned
  | .panic => .panicked
  | .diverge => .diverged

@[simp] theorem ending_ok (a : α) : ending (.ok a : Outcome ε α) = .returned := rfl
@[simp] theorem ending_err (e : ε) : ending (.err e : Outcome ε α) = .returned := rfl

@[simp] theorem ending_eq_panicked {x : Outcome ε α} : x.ending = .panicked ↔ x = .panic := by
  cases x <;> simp [ending]

@[simp] theorem ending_eq_diverged {x : Outcome ε α} : x.ending = .diverged ↔ x = .diverge := by
  cases x <;> simp [ending]

/-- A composite that does not return fails to do so in one of its parts. -/
theorem ending_bind {x : Outcome ε α} {f : α → Outcome ε β} {e : Ending} (he : e ≠ .returned) :
    (x >>= f).ending = e ↔ x.ending = e ∨ ∃ a, x = .ok a ∧ (f a).ending = e := by
  cases x with
  | ok a => simp [Ne.symm he]
  | err _ => simp [Ne.symm he]
  | panic => simp [ending]
  | diverge => simp [ending]

end Outcome

end FastDns.Lib
