/-
Runs of a state machine, with what has happened in them.

`Trace step s₀ events s` says that the events lead from `s₀` to `s`, the last one
behind. The rules: what every step keeps holds at the end of a run
(`Trace.invariant`), also together with what has happened (`Trace.relates`), and
events that use up a measure are no more than it was at the start
(`Trace.countP_add_le`).
-/

import Mathlib.Data.List.Basic
import Mathlib.Data.List.Induction
import Mathlib.Tactic.Common

namespace FastDns.Lib

variable {σ ε : Type}

/-- The events lead from one state to the other. -/
inductive Trace (step : σ → ε → Option σ) (s₀ : σ) : List ε → σ → Prop where
  | start : Trace step s₀ [] s₀
  | step {events : List ε} {s s' : σ} {e : ε} : Trace step s₀ events s → step s e = some s' →
      Trace step s₀ (events ++ [e]) s'

namespace Trace

variable {step : σ → ε → Option σ} {s₀ s : σ} {events : List ε}

theorem single {e : ε} (h : step s₀ e = some s) : Trace step s₀ [e] s := .step .start h

theorem trans {mid : σ} {rest : List ε} (h : Trace step s₀ events mid)
    (hrest : Trace step mid rest s) : Trace step s₀ (events ++ rest) s := by
  induction hrest with
  | start => rwa [List.append_nil]
  | step _ he ih => exact List.append_assoc _ _ _ ▸ .step ih he

theorem of_nil (h : Trace step s₀ [] s) : s₀ = s := by
  generalize hall : ([] : List ε) = all at h
  cases h with
  | start => rfl
  | step => simp at hall

theorem of_snoc {e : ε} (h : Trace step s₀ (events ++ [e]) s) :
    ∃ mid, Trace step s₀ events mid ∧ step mid e = some s := by
  generalize hall : events ++ [e] = all at h
  cases h with
  | start => simp at hall
  | step hrun he =>
      obtain ⟨rfl, hlast⟩ := List.append_inj' hall rfl
      cases hlast
      exact ⟨_, hrun, he⟩

/-- A run goes through a state behind its first events. -/
theorem split {rest : List ε} (h : Trace step s₀ (events ++ rest) s) :
    ∃ mid, Trace step s₀ events mid ∧ Trace step mid rest s := by
  induction rest using List.reverseRecOn generalizing s with
  | nil => exact ⟨s, by rwa [List.append_nil] at h, .start⟩
  | append_singleton rest e ih =>
      rw [← List.append_assoc] at h
      obtain ⟨last, hrun, he⟩ := h.of_snoc
      obtain ⟨mid, hfirst, hrest⟩ := ih hrun
      exact ⟨mid, hfirst, .step hrest he⟩

theorem of_cons {e : ε} {rest : List ε} (h : Trace step s₀ (e :: rest) s) :
    ∃ mid, step s₀ e = some mid ∧ Trace step mid rest s := by
  have hsplit : Trace step s₀ ([e] ++ rest) s := h
  obtain ⟨mid, hfirst, hrest⟩ := hsplit.split
  have hsnoc : Trace step s₀ ([] ++ [e]) mid := hfirst
  obtain ⟨first, hnil, he⟩ := hsnoc.of_snoc
  exact ⟨mid, hnil.of_nil ▸ he, hrest⟩

/-- A run that is computed. -/
theorem of_foldlM (h : events.foldlM step s₀ = some s) : Trace step s₀ events s := by
  induction events using List.reverseRecOn generalizing s with
  | nil =>
      cases h
      exact .start
  | append_singleton events e ih =>
      rw [List.foldlM_append] at h
      obtain ⟨mid, hrun, he⟩ := Option.bind_eq_some_iff.mp h
      rw [List.foldlM_cons] at he
      obtain ⟨last, hlast, hend⟩ := Option.bind_eq_some_iff.mp he
      cases hend
      exact .step (ih hrun) hlast

/-- What holds of the events and the state at the start, and is kept by every step. -/
theorem relates {R : List ε → σ → Prop} (h : Trace step s₀ events s) (hstart : R [] s₀)
    (hstep : ∀ {events s s' e}, R events s → step s e = some s' → R (events ++ [e]) s') :
    R events s := by
  induction h with
  | start => exact hstart
  | step _ he ih => exact hstep ih he

theorem invariant {I : σ → Prop} (h : Trace step s₀ events s) (hstart : I s₀)
    (hstep : ∀ {s s' e}, I s → step s e = some s' → I s') : I s :=
  h.relates (R := fun _ s => I s) hstart hstep

/-- No step makes more of the measure, and each of some steps uses up one. -/
theorem countP_add_le {own : ε → Bool} {left : σ → Nat} (h : Trace step s₀ events s)
    (hstep : ∀ {s s' e}, step s e = some s' → left s' + (if own e then 1 else 0) ≤ left s) :
    events.countP own + left s ≤ left s₀ := by
  induction h with
  | start => simp
  | step _ he ih =>
      have hless := hstep he
      rw [List.countP_append, List.countP_singleton]
      omega

end Trace

end FastDns.Lib
