/-
One program in two environments.

`Alike env env' I m Q X` says that from every state with the invariant `I` the
program runs in `env'` exactly as it does in `env`, that it keeps the invariant
whether it returns or raises an error, that `Q` holds of what it returns and `X`
of what it raises. With one environment in both places it is partial correctness
with a postcondition for errors; with two it says that whatever the environments
differ in has no influence on the run. The rules follow the ways to build a
program; only `alike_read` compares the environments.
-/

import FastDns.Lib.Run

namespace FastDns.Lib

namespace Outcome

variable {ε α : Type}

/-- `Q` holds of a value, `X` of an error. -/
def Holds (Q : α → Prop) (X : ε → Prop) : Outcome ε α → Prop
  | .ok a => Q a
  | .err e => X e
  | .panic => True
  | .diverge => True

/-- What is known of an end may be weakened. -/
theorem Holds.mono {Q Q' : α → Prop} {X X' : ε → Prop} {o : Outcome ε α} (h : o.Holds Q X)
    (hQ : ∀ a, Q a → Q' a) (hX : ∀ e, X e → X' e) : o.Holds Q' X' := by
  cases o with
  | ok a => exact hQ a h
  | err e => exact hX e h
  | panic => trivial
  | diverge => trivial

/-- A caught call has returned a value if it did without being caught. -/
theorem attempt_eq_ok {x : Outcome ε α} {a : α} : x.attempt = .ok (.ok a) ↔ x = .ok a := by
  cases x <;> simp

end Outcome

namespace Run

variable {ρ σ ε α β : Type}

/-- What is known of an end: the state keeps the invariant, and the value or the
error is as it should be. -/
abbrev Concludes (I : σ → Prop) (Q : α → Prop) (X : ε → Prop) : Outcome (ε × σ) (α × σ) → Prop :=
  Outcome.Holds (fun a => I a.2 ∧ Q a.1) fun e => I e.2 ∧ X e.1

/-- The same run in both environments, with what is known of its end. -/
structure Alike (env env' : ρ) (I : σ → Prop) (m : Run ρ σ ε α) (Q : α → Prop) (X : ε → Prop) :
    Prop where
  same : ∀ s, I s → m env s = m env' s
  ends : ∀ s, I s → Concludes I Q X (m env s)

section Rules

variable {env env' : ρ} {I : σ → Prop} {m : Run ρ σ ε α} {f : α → Run ρ σ ε β} {P Q : α → Prop}
  {S : β → Prop} {X Y : ε → Prop}

theorem Alike.mono (h : Alike env env' I m P X) (hQ : ∀ a, P a → Q a) (hX : ∀ e, X e → Y e) :
    Alike env env' I m Q Y where
  same := h.same
  ends s hs := (h.ends s hs).mono (fun _ ha => ⟨ha.1, hQ _ ha.2⟩) fun _ he => ⟨he.1, hX _ he.2⟩

/-- Only what is returned matters. -/
theorem Alike.weaken (h : Alike env env' I m P X) (hQ : ∀ a, P a → Q a) :
    Alike env env' I m Q X :=
  h.mono hQ fun _ he => he

/-- What is known of the value from elsewhere. -/
theorem Alike.of_returns (h : Alike env env' I m P X) (hQ : Returns env m Q) :
    Alike env env' I m Q X where
  same := h.same
  ends s hs := by
    have hends := h.ends s hs
    cases hrun : m env s with
    | ok a =>
        rw [hrun] at hends
        exact ⟨hends.1, hQ s a.1 a.2 hrun⟩
    | err e =>
        rw [hrun] at hends
        exact hends
    | panic => trivial
    | diverge => trivial

theorem alike_pure {a : α} (h : Q a) : Alike env env' I (pure a : Run ρ σ ε α) Q X :=
  ⟨fun _ _ => rfl, fun _ hs => ⟨hs, h⟩⟩

theorem alike_throw {e : ε} (h : X e) : Alike env env' I (throw e : Run ρ σ ε α) Q X :=
  ⟨fun _ _ => rfl, fun _ hs => ⟨hs, h⟩⟩

theorem alike_get : Alike env env' I (get : Run ρ σ ε σ) I X :=
  ⟨fun _ _ => rfl, fun _ hs => ⟨hs, hs⟩⟩

theorem alike_modify {g : σ → σ} (h : ∀ s, I s → I (g s)) :
    Alike env env' I (modify g : Run ρ σ ε Unit) (fun _ => True) X :=
  ⟨fun _ _ => rfl, fun s hs => ⟨h s hs, trivial⟩⟩

theorem alike_lift {δ : Type} {wrap : δ → ε} {x : Outcome δ α}
    (hX : ∀ e, x = .err e → X (wrap e)) :
    Alike env env' I (lift wrap x : Run ρ σ ε α) (fun a => x = .ok a) X := by
  refine ⟨fun _ _ => rfl, fun s hs => ?_⟩
  cases x with
  | ok a => exact ⟨hs, rfl⟩
  | err e => exact ⟨hs, hX e rfl⟩
  | panic => trivial
  | diverge => trivial

/-- Sequencing: the second part starts alike. -/
theorem alike_bind (hm : Alike env env' I m P X) (hf : ∀ a, P a → Alike env env' I (f a) S X) :
    Alike env env' I (m >>= f) S X := by
  constructor
  · intro s hs
    have hends := hm.ends s hs
    rw [bind_apply, bind_apply, ← hm.same s hs]
    cases hrun : m env s with
    | ok a =>
        rw [hrun] at hends
        exact (hf a.1 hends.2).same a.2 hends.1
    | err e => rfl
    | panic => rfl
    | diverge => rfl
  · intro s hs
    have hends := hm.ends s hs
    rw [bind_apply]
    cases hrun : m env s with
    | ok a =>
        rw [hrun] at hends
        exact (hf a.1 hends.2).ends a.2 hends.1
    | err e =>
        rw [hrun] at hends
        exact hends
    | panic => trivial
    | diverge => trivial

/-- Handling: the handler starts alike, too. -/
theorem alike_handle {h : ε → Run ρ σ ε α} (hm : Alike env env' I m Q X)
    (hh : ∀ e, X e → Alike env env' I (h e) Q Y) : Alike env env' I (handle m h) Q Y := by
  constructor
  · intro s hs
    have hends := hm.ends s hs
    unfold handle
    rw [← hm.same s hs]
    cases hrun : m env s with
    | err e =>
        rw [hrun] at hends
        exact (hh e.1 hends.2).same e.2 hends.1
    | ok a => rfl
    | panic => rfl
    | diverge => rfl
  · intro s hs
    have hends := hm.ends s hs
    unfold handle
    cases hrun : m env s with
    | err e =>
        rw [hrun] at hends
        exact (hh e.1 hends.2).ends e.2 hends.1
    | ok a =>
        rw [hrun] at hends
        exact hends
    | panic => trivial
    | diverge => trivial

/-- What is read does not matter if the rest is the same program in either case. -/
theorem alike_read {f : ρ → Run ρ σ ε β} (heq : f env = f env')
    (hf : Alike env env' I (f env) S X) : Alike env env' I (read >>= f) S X := by
  refine ⟨fun s hs => ?_, fun s hs => hf.ends s hs⟩
  change f env env s = f env' env' s
  rw [← heq]
  exact hf.same s hs

/-- A program on a part of the state is alike if it is on the part alone, and the
invariant of the whole follows from the one of the part. -/
theorem alike_within {τ δ : Type} {J : τ → Prop} {wrap : ε → δ} {part : τ → σ}
    {replace : σ → τ → τ} {Z : δ → Prop} (hm : Alike env env' I m Q X)
    (hpart : ∀ t, J t → I (part t)) (hreplace : ∀ s t, I s → J t → J (replace s t))
    (hZ : ∀ e, X e → Z (wrap e)) :
    Alike env env' J (m.within wrap part replace) Q Z := by
  constructor
  · intro t ht
    unfold within
    rw [hm.same (part t) (hpart t ht)]
  · intro t ht
    have hends := hm.ends (part t) (hpart t ht)
    unfold within
    cases hrun : m env (part t) with
    | ok a =>
        rw [hrun] at hends
        exact ⟨hreplace a.2 t hends.1 ht, hends.2⟩
    | err e =>
        rw [hrun] at hends
        exact ⟨hreplace e.2 t hends.1 ht, hZ e.1 hends.2⟩
    | panic => trivial
    | diverge => trivial

end Rules

end Run

end FastDns.Lib
