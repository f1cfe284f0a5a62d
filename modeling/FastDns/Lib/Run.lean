/-
Programs over an environment and a state.

`Run ρ σ ε α` reads an environment `ρ` (the outside world: replies, clocks),
changes a state `σ` and ends as an `Outcome` does. An error keeps the state in
which it was raised, so a caller that handles it goes on from there. A panic
and a divergent loop end the whole program.

The facts about such programs that have rules here: `Returns` is partial
correctness of the returned value, `Yields` partial and `Ensures` total
correctness under an invariant of the state, and `Ends` a statement about any
end, divergence included.
`Keeps R` says that the state at every end is related to the state at the
start, and `Halts` that the program does not diverge; both are closed under all
the ways to build a program, which `Closed` collects, so that a fact about a
large program is proved once for every closed predicate. `Related` compares the
ends of two programs that start alike.
-/

import FastDns.Lib.Outcome

namespace FastDns.Lib

/-- A program. -/
def Run (ρ σ ε α : Type) : Type := ρ → σ → Outcome (ε × σ) (α × σ)

namespace Run

variable {ρ σ ε α β : Type}

instance : Monad (Run ρ σ ε) where
  pure a := fun _ s => .ok (a, s)
  bind m f := fun env s => (m env s).bind fun (a, s) => f a env s

/-- The environment. -/
def read : Run ρ σ ε ρ := fun env s => .ok (env, s)

def get : Run ρ σ ε σ := fun _ s => .ok (s, s)

def modify (f : σ → σ) : Run ρ σ ε Unit := fun _ s => .ok ((), f s)

/-- Raise an error. -/
def throw (e : ε) : Run ρ σ ε α := fun _ s => .err (e, s)

/-- Go on from an error, in the state in which it was raised. -/
def handle (m : Run ρ σ ε α) (h : ε → Run ρ σ ε α) : Run ρ σ ε α := fun env s =>
  match m env s with
  | .err (e, s) => h e env s
  | other => other

/-- A call of a function without state. -/
def lift {δ : Type} (wrap : δ → ε) (x : Outcome δ α) : Run ρ σ ε α := fun _ s =>
  match x with
  | .ok a => .ok (a, s)
  | .err e => .err (wrap e, s)
  | .panic => .panic
  | .diverge => .diverge

/-- A program on a part of a larger state. -/
def within {τ δ : Type} (wrap : ε → δ) (part : τ → σ) (replace : σ → τ → τ) (m : Run ρ σ ε α) :
    Run ρ τ δ α := fun env t =>
  match m env (part t) with
  | .ok (a, s) => .ok (a, replace s t)
  | .err (e, s) => .err (wrap e, replace s t)
  | .panic => .panic
  | .diverge => .diverge

/-- The end of a program without the state it leaves. -/
def result (m : Run ρ σ ε α) (env : ρ) (s : σ) : Outcome ε α :=
  match m env s with
  | .ok (a, _) => .ok a
  | .err (e, _) => .err e
  | .panic => .panic
  | .diverge => .diverge

section Equations

variable {env : ρ} {s : σ}

/-- The result, with some state behind it. -/
theorem result_eq_ok {m : Run ρ σ ε α} {a : α} :
    m.result env s = .ok a ↔ ∃ s', m env s = .ok (a, s') := by
  unfold result
  split <;> rename_i heq <;> simp [heq]

theorem result_eq_err {m : Run ρ σ ε α} {e : ε} :
    m.result env s = .err e ↔ ∃ s', m env s = .err (e, s') := by
  unfold result
  split <;> rename_i heq <;> simp [heq]

@[simp] theorem pure_apply (a : α) : (pure a : Run ρ σ ε α) env s = .ok (a, s) := rfl

@[simp] theorem bind_apply (m : Run ρ σ ε α) (f : α → Run ρ σ ε β) :
    (m >>= f) env s = (m env s >>= fun x => f x.1 env x.2) := rfl

/-- Sequencing is associative. -/
theorem bind_bind {γ : Type} (m : Run ρ σ ε α) (f : α → Run ρ σ ε β) (g : β → Run ρ σ ε γ) :
    (m >>= f) >>= g = m >>= fun a => f a >>= g := by
  funext env s
  rw [bind_apply, bind_apply, bind_apply]
  cases m env s <;> rfl

/-- A program that returns hands its state on. -/
theorem bind_of_ok {m : Run ρ σ ε α} {f : α → Run ρ σ ε β} {a : α} {s' : σ}
    (h : m env s = .ok (a, s')) : (m >>= f) env s = f a env s' := by
  rw [bind_apply, h, Outcome.ok_bind]

/-- A composite returns exactly if both parts do. -/
theorem bind_eq_ok {m : Run ρ σ ε α} {f : α → Run ρ σ ε β} {b : β} {s' : σ} :
    (m >>= f) env s = .ok (b, s') ↔
      ∃ a s₁, m env s = .ok (a, s₁) ∧ f a env s₁ = .ok (b, s') := by
  rw [bind_apply, Outcome.bind_eq_ok, Prod.exists]

/-- A guard that would have returned another value was not taken. -/
theorem guard_eq_ok {c : Prop} [Decidable c] {m : Run ρ σ ε α} {a b : α} {s' : σ}
    (h : (if c then pure a else m) env s = .ok (b, s')) (hother : c → a ≠ b) :
    ¬ c ∧ m env s = .ok (b, s') := by
  by_cases hc : c
  · rw [if_pos hc] at h
    cases h
    exact absurd rfl (hother hc)
  · rw [if_neg hc] at h
    exact ⟨hc, h⟩

@[simp] theorem read_apply : (read : Run ρ σ ε ρ) env s = .ok (env, s) := rfl
@[simp] theorem get_apply : (get : Run ρ σ ε σ) env s = .ok (s, s) := rfl

@[simp] theorem modify_apply (f : σ → σ) :
    (modify f : Run ρ σ ε Unit) env s = .ok ((), f s) := rfl

@[simp] theorem throw_apply (e : ε) : (throw e : Run ρ σ ε α) env s = .err (e, s) := rfl

/-- Without an error the handler is not run. -/
theorem handle_of_ok {m : Run ρ σ ε α} {h : ε → Run ρ σ ε α} {a : α} {s' : σ}
    (hm : m env s = .ok (a, s')) : handle m h env s = .ok (a, s') := by
  rw [handle, hm]

/-- With one it runs in the state of the error. -/
theorem handle_of_err {m : Run ρ σ ε α} {h : ε → Run ρ σ ε α} {e : ε} {s' : σ}
    (hm : m env s = .err (e, s')) : handle m h env s = h e env s' := by
  rw [handle, hm]

@[simp] theorem lift_ok {δ : Type} (wrap : δ → ε) (a : α) :
    (lift wrap (.ok a) : Run ρ σ ε α) env s = .ok (a, s) := rfl

@[simp] theorem lift_err {δ : Type} (wrap : δ → ε) (e : δ) :
    (lift wrap (.err e) : Run ρ σ ε α) env s = .err (wrap e, s) := rfl

@[simp] theorem lift_panic {δ : Type} (wrap : δ → ε) :
    (lift wrap (.panic : Outcome δ α) : Run ρ σ ε α) env s = .panic := rfl

end Equations

/-! ### Partial correctness -/

/-- Whatever the program returns satisfies `Q`. -/
def Returns (env : ρ) (m : Run ρ σ ε α) (Q : α → Prop) : Prop :=
  ∀ s a s', m env s = .ok (a, s') → Q a

section Returns

variable {env : ρ} {m : Run ρ σ ε α} {f : α → Run ρ σ ε β} {P : α → Prop} {Q : β → Prop}

/-- What says nothing holds of every result. -/
theorem returns_true : Returns env m fun _ => True := fun _ _ _ _ => trivial

theorem returns_pure {a : α} (h : P a) : Returns env (pure a : Run ρ σ ε α) P := by
  intro s a' s' heq
  cases heq
  exact h

theorem returns_read : Returns env (read : Run ρ σ ε ρ) fun env' => env' = env := by
  intro s env' s' heq
  cases heq
  rfl

theorem returns_throw {e : ε} : Returns env (throw e : Run ρ σ ε α) P := by
  intro s a' s' heq
  cases heq

/-- Sequencing: what is known of the first result is known in what follows. -/
theorem returns_bind (hm : Returns env m P) (hf : ∀ a, P a → Returns env (f a) Q) :
    Returns env (m >>= f) Q := by
  intro s b s' heq
  obtain ⟨⟨a, s₁⟩, ha, hb⟩ := Outcome.bind_eq_ok.mp heq
  exact hf a (hm s a s₁ ha) s₁ b s' hb

/-- When nothing is known of it. -/
theorem returns_bind' (hf : ∀ a, Returns env (f a) Q) : Returns env (m >>= f) Q :=
  returns_bind returns_true fun a _ => hf a

end Returns

/-! ### Searches that stop at the first hit -/

section AnyM

variable {env : ρ} {R : σ → σ → Prop} {p : α → Run ρ σ ε Bool} {l : List α} {s s' : σ}

/-- A search over a list changes the state only as its rounds do. -/
theorem anyM_rel (hrefl : ∀ s, R s s) (htrans : ∀ {a b c}, R a b → R b c → R a c)
    (hp : ∀ a s b s', p a env s = .ok (b, s') → R s s') {b : Bool}
    (h : l.anyM p env s = .ok (b, s')) : R s s' := by
  induction l generalizing s with
  | nil =>
      cases h
      exact hrefl _
  | cons a l ih =>
      obtain ⟨hit, s₁, ha, hrest⟩ := bind_eq_ok.mp h
      cases hit with
      | true =>
          cases hrest
          exact hp a s true s' ha
      | false => exact htrans (hp a s false s₁ ha) (ih hrest)

/-- A search that succeeds ends with a round that succeeded. -/
theorem anyM_true (hrefl : ∀ s, R s s) (htrans : ∀ {a b c}, R a b → R b c → R a c)
    (hp : ∀ a s b s', p a env s = .ok (b, s') → R s s')
    (h : l.anyM p env s = .ok (true, s')) :
    ∃ a ∈ l, ∃ s₁, R s s₁ ∧ p a env s₁ = .ok (true, s') := by
  induction l generalizing s with
  | nil => cases h
  | cons a l ih =>
      obtain ⟨hit, s₁, ha, hrest⟩ := bind_eq_ok.mp h
      cases hit with
      | true =>
          cases hrest
          exact ⟨a, List.mem_cons_self, s, hrefl s, ha⟩
      | false =>
          obtain ⟨c, hc, s₂, hR, hhit⟩ := ih hrest
          exact ⟨c, List.mem_cons_of_mem a hc, s₂, htrans (hp a s false s₁ ha) hR, hhit⟩

end AnyM

/-! ### Total correctness and divergence -/

/-- From every state that satisfies `I`, the program ends as `E` says. -/
def Ends (env : ρ) (I : σ → Prop) (m : Run ρ σ ε α) (E : Outcome (ε × σ) (α × σ) → Prop) : Prop :=
  ∀ s, I s → E (m env s)

/-- From every state that satisfies `I`, the program returns a value with `Q` in
such a state. -/
abbrev Ensures (env : ρ) (I : σ → Prop) (m : Run ρ σ ε α) (Q : α → Prop) : Prop :=
  Ends env I m fun o => ∃ a s', o = .ok (a, s') ∧ I s' ∧ Q a

section Ensures

variable {env : ρ} {I : σ → Prop} {m : Run ρ σ ε α} {f : α → Run ρ σ ε β} {P : α → Prop}

theorem ensures_pure {a : α} (h : P a) : Ensures env I (pure a : Run ρ σ ε α) P :=
  fun s hs => ⟨a, s, rfl, hs, h⟩

theorem ensures_read : Ensures env I (read : Run ρ σ ε ρ) fun env' => env' = env :=
  fun s hs => ⟨env, s, rfl, hs, rfl⟩

theorem ensures_get : Ensures env I (get : Run ρ σ ε σ) I :=
  fun s hs => ⟨s, s, rfl, hs, hs⟩

theorem ensures_modify {g : σ → σ} (h : ∀ s, I s → I (g s)) :
    Ensures env I (modify g : Run ρ σ ε Unit) fun _ => True :=
  fun s hs => ⟨(), g s, rfl, h s hs, trivial⟩

theorem ensures_lift {δ : Type} {wrap : δ → ε} {a : α} (h : P a) :
    Ensures env I (lift wrap (.ok a) : Run ρ σ ε α) P :=
  fun s hs => ⟨a, s, rfl, hs, h⟩

/-- What comes after a program that returns decides how the composite ends. -/
theorem ends_bind {E : Outcome (ε × σ) (β × σ) → Prop} (hm : Ensures env I m P)
    (hf : ∀ a, P a → Ends env I (f a) E) : Ends env I (m >>= f) E := by
  intro s hs
  obtain ⟨a, s₁, ha, hs₁, hP⟩ := hm s hs
  rw [bind_of_ok ha]
  exact hf a hP s₁ hs₁

/-- A composite hangs where its first part hangs. -/
theorem ends_bind_of_diverges (hm : Ends env I m fun o => o = .diverge) :
    Ends env I (m >>= f) fun o => o = .diverge := by
  intro s hs
  rw [bind_apply, hm s hs, Outcome.diverge_bind]

theorem ends_handle_of_diverges {h : ε → Run ρ σ ε α} (hm : Ends env I m fun o => o = .diverge) :
    Ends env I (handle m h) fun o => o = .diverge := by
  intro s hs
  rw [handle, hm s hs]

end Ensures

/-! ### Partial correctness under an invariant of the state -/

/-- From every state that satisfies `I`, whatever the program returns satisfies
`Q`, in such a state. -/
abbrev Yields (env : ρ) (I : σ → Prop) (m : Run ρ σ ε α) (Q : α → Prop) : Prop :=
  Ends env I m fun o => ∀ a s', o = .ok (a, s') → I s' ∧ Q a

section Yields

variable {env : ρ} {I : σ → Prop} {m : Run ρ σ ε α} {f : α → Run ρ σ ε β} {P Q : α → Prop}
  {S : β → Prop}

/-- A result may be known less precisely. -/
theorem yields_mono (hm : Yields env I m P) (h : ∀ a, P a → Q a) : Yields env I m Q := by
  intro s hs a s' heq
  obtain ⟨hs', ha⟩ := hm s hs a s' heq
  exact ⟨hs', h a ha⟩

theorem yields_pure {a : α} (h : P a) : Yields env I (pure a : Run ρ σ ε α) P := by
  intro s hs a' s' heq
  cases heq
  exact ⟨hs, h⟩

theorem yields_read : Yields env I (read : Run ρ σ ε ρ) fun env' => env' = env := by
  intro s hs env' s' heq
  cases heq
  exact ⟨hs, rfl⟩

theorem yields_get : Yields env I (get : Run ρ σ ε σ) I := by
  intro s hs a s' heq
  cases heq
  exact ⟨hs, hs⟩

theorem yields_modify {g : σ → σ} (h : ∀ s, I s → I (g s)) :
    Yields env I (modify g : Run ρ σ ε Unit) fun _ => True := by
  intro s hs a s' heq
  cases heq
  exact ⟨h s hs, trivial⟩

theorem yields_lift {δ : Type} {wrap : δ → ε} {x : Outcome δ α} :
    Yields env I (lift wrap x : Run ρ σ ε α) fun a => x = .ok a := by
  intro s hs a s' heq
  cases x with
  | ok b =>
      cases heq
      exact ⟨hs, rfl⟩
  | err e => cases heq
  | panic => cases heq
  | diverge => cases heq

/-- Sequencing, with an invariant of the state. -/
theorem yields_bind (hm : Yields env I m P) (hf : ∀ a, P a → Yields env I (f a) S) :
    Yields env I (m >>= f) S := by
  intro s hs b s' heq
  obtain ⟨a, s₁, ha, hb⟩ := bind_eq_ok.mp heq
  obtain ⟨hs₁, hP⟩ := hm s hs a s₁ ha
  exact hf a hP s₁ hs₁ b s' hb

/-- A loop that keeps the invariant in every round. -/
theorem yields_forM {l : List α} {g : α → Run ρ σ ε PUnit}
    (hg : ∀ a ∈ l, Yields env I (g a) fun _ => True) :
    Yields env I (l.forM g) fun _ => True := by
  induction l with
  | nil => exact yields_pure trivial
  | cons a l ih =>
      exact yields_bind (hg a List.mem_cons_self) fun _ _ =>
        ih fun b hb => hg b (List.mem_cons_of_mem a hb)

/-- A search that no round decided, or one round did. -/
theorem yields_findSomeM? {l : List α} {g : α → Run ρ σ ε (Option β)} {R : α → Option β → Prop}
    (hg : ∀ a ∈ l, Yields env I (g a) (R a)) :
    Yields env I (l.findSomeM? g) fun o =>
      (o = none ∧ ∀ a ∈ l, R a none) ∨ ∃ a ∈ l, ∃ b, o = some b ∧ R a (some b) := by
  induction l with
  | nil => exact yields_pure (.inl ⟨rfl, fun _ ha => absurd ha List.not_mem_nil⟩)
  | cons a l ih =>
      refine yields_bind (hg a List.mem_cons_self) fun o ho => ?_
      cases o with
      | some b => exact yields_pure (.inr ⟨a, List.mem_cons_self, b, rfl, ho⟩)
      | none =>
          refine yields_mono (ih fun c hc => hg c (List.mem_cons_of_mem a hc)) fun o hrest => ?_
          rcases hrest with ⟨hnone, hall⟩ | ⟨c, hc, b, hb, hR⟩
          · exact .inl ⟨hnone, List.forall_mem_cons.mpr ⟨ho, hall⟩⟩
          · exact .inr ⟨c, List.mem_cons_of_mem a hc, b, hb, hR⟩

/-- A search with a default for the case that no round decides. -/
theorem yields_findSomeM?_getD {l : List α} {g : α → Run ρ σ ε (Option β)} {d : β} (hd : S d)
    (hg : ∀ a ∈ l, Yields env I (g a) fun o => ∀ b, o = some b → S b) :
    Yields env I (do let found ← l.findSomeM? g; pure (found.getD d)) S := by
  refine yields_bind (yields_findSomeM? hg) fun o ho => yields_pure ?_
  rcases ho with ⟨rfl, _⟩ | ⟨_, _, b, rfl, hb⟩
  · exact hd
  · exact hb b rfl

end Yields

/-! ### Predicates that every program built from good parts satisfies -/

/-- `P` holds of the basic programs and is closed under sequencing and handling. -/
structure Closed (P : ∀ {α : Type}, Run ρ σ ε α → Prop) : Prop where
  pure : ∀ {α : Type} (a : α), P (pure a)
  read : P read
  get : P get
  throw : ∀ {α : Type} (e : ε), P (throw e : Run ρ σ ε α)
  lift : ∀ {δ α : Type} (wrap : δ → ε) {x : Outcome δ α}, x ≠ .diverge →
    P (lift wrap x : Run ρ σ ε α)
  bind : ∀ {α β : Type} {m : Run ρ σ ε α} {f : α → Run ρ σ ε β},
    P m → (∀ a, P (f a)) → P (m >>= f)
  handle : ∀ {α : Type} {m : Run ρ σ ε α} {h : ε → Run ρ σ ε α},
    P m → (∀ e, P (h e)) → P (handle m h)

/-- The state at every end is related to the state at the start. -/
def Keeps (R : σ → σ → Prop) (m : Run ρ σ ε α) : Prop :=
  ∀ env s, (∀ a s', m env s = .ok (a, s') → R s s') ∧ ∀ e s', m env s = .err (e, s') → R s s'

/-- The program comes back, in every environment that satisfies `E`. -/
def Halts (E : ρ → Prop) (m : Run ρ σ ε α) : Prop := ∀ env, E env → ∀ s, m env s ≠ .diverge

/-- A function without state keeps the state. -/
theorem keeps_lift {δ : Type} {R : σ → σ → Prop} (hrefl : ∀ s, R s s) {wrap : δ → ε}
    {x : Outcome δ α} : Keeps R (lift wrap x : Run ρ σ ε α) := by
  intro env s
  cases x with
  | ok a => exact ⟨by rintro _ _ ⟨⟩; exact hrefl s, by rintro _ _ ⟨⟩⟩
  | err e => exact ⟨by rintro _ _ ⟨⟩, by rintro _ _ ⟨⟩; exact hrefl s⟩
  | panic => exact ⟨by rintro _ _ ⟨⟩, by rintro _ _ ⟨⟩⟩
  | diverge => exact ⟨by rintro _ _ ⟨⟩, by rintro _ _ ⟨⟩⟩

theorem halts_lift {δ : Type} {E : ρ → Prop} {wrap : δ → ε} {x : Outcome δ α}
    (hx : x ≠ .diverge) : Halts E (lift wrap x : Run ρ σ ε α) := by
  intro env _ s
  cases x with
  | ok a => simp
  | err e => simp
  | panic => simp
  | diverge => exact absurd rfl hx

/-- A relation that is reflexive and transitive is kept by every combination. -/
theorem keeps_closed {R : σ → σ → Prop} (hrefl : ∀ s, R s s)
    (htrans : ∀ {a b c}, R a b → R b c → R a c) :
    Closed fun {α} (m : Run ρ σ ε α) => Keeps R m where
  pure a env s := ⟨by rintro _ _ ⟨⟩; exact hrefl s, by rintro _ _ ⟨⟩⟩
  read env s := ⟨by rintro _ _ ⟨⟩; exact hrefl s, by rintro _ _ ⟨⟩⟩
  get env s := ⟨by rintro _ _ ⟨⟩; exact hrefl s, by rintro _ _ ⟨⟩⟩
  throw e env s := ⟨by rintro _ _ ⟨⟩, by rintro _ _ ⟨⟩; exact hrefl s⟩
  lift _ _ _ := keeps_lift hrefl
  bind := by
    intro α β m f hm hf env s
    constructor
    · intro b s' heq
      obtain ⟨⟨a, s₁⟩, ha, hb⟩ := Outcome.bind_eq_ok.mp heq
      exact htrans ((hm env s).1 a s₁ ha) ((hf a env s₁).1 b s' hb)
    · intro e s' heq
      rw [bind_apply] at heq
      cases hstart : m env s with
      | ok x =>
          rw [hstart, Outcome.ok_bind] at heq
          exact htrans ((hm env s).1 x.1 x.2 hstart) ((hf x.1 env x.2).2 e s' heq)
      | err x =>
          rw [hstart, Outcome.err_bind] at heq
          cases heq
          exact (hm env s).2 e s' hstart
      | panic => rw [hstart] at heq; cases heq
      | diverge => rw [hstart] at heq; cases heq
  handle := by
    intro α m h hm hh env s
    cases hstart : m env s with
    | err x =>
        rw [handle_of_err hstart]
        have hfirst := (hm env s).2 x.1 x.2 hstart
        exact ⟨fun a s' heq => htrans hfirst ((hh x.1 env x.2).1 a s' heq),
          fun e s' heq => htrans hfirst ((hh x.1 env x.2).2 e s' heq)⟩
    | ok x => rw [handle_of_ok hstart, ← hstart]; exact hm env s
    | panic => rw [handle, hstart]; exact ⟨by rintro _ _ ⟨⟩, by rintro _ _ ⟨⟩⟩
    | diverge => rw [handle, hstart]; exact ⟨by rintro _ _ ⟨⟩, by rintro _ _ ⟨⟩⟩

/-- Every combination of programs that come back comes back. -/
theorem halts_closed (E : ρ → Prop) :
    Closed fun {α} (m : Run ρ σ ε α) => Halts E m where
  pure a env _ s := by simp
  read env _ s := by simp
  get env _ s := by simp
  throw e env _ s := by simp
  lift _ _ hx := halts_lift hx
  bind := by
    intro α β m f hm hf env henv s heq
    rcases Outcome.bind_eq_diverge.mp heq with hd | ⟨⟨a, s₁⟩, _, hd⟩
    · exact hm env henv s hd
    · exact hf a env henv s₁ hd
  handle := by
    intro α m h hm hh env henv s heq
    cases hstart : m env s with
    | err x =>
        rw [handle_of_err hstart] at heq
        exact hh x.1 env henv x.2 heq
    | ok x => rw [handle_of_ok hstart] at heq; cases heq
    | panic => rw [handle, hstart] at heq; cases heq
    | diverge => exact hm env henv s hstart

/-- What comes after a program has to come back for what the program can return. -/
theorem halts_bind_of_returns {E : ρ → Prop} {m : Run ρ σ ε α} {f : α → Run ρ σ ε β}
    {Q : α → Prop} (hm : Halts E m) (hreturns : ∀ env, E env → Returns env m Q)
    (hf : ∀ a, Q a → Halts E (f a)) : Halts E (m >>= f) := by
  intro env henv s heq
  rcases Outcome.bind_eq_diverge.mp heq with hd | ⟨⟨a, s₁⟩, ha, hd⟩
  · exact hm env henv s hd
  · exact hf a (hreturns env henv s a s₁ ha) env henv s₁ hd

theorem keeps_modify {R : σ → σ → Prop} {f : σ → σ} (h : ∀ s, R s (f s)) :
    Keeps R (modify f : Run ρ σ ε Unit) :=
  fun _ s => ⟨by rintro _ _ ⟨⟩; exact h s, by rintro _ _ ⟨⟩⟩

/-- A program on a part of the state changes that part only. -/
theorem keeps_within {τ δ : Type} {R : τ → τ → Prop} {wrap : ε → δ} {part : τ → σ}
    {replace : σ → τ → τ} (h : ∀ s t, R t (replace s t)) (m : Run ρ σ ε α) :
    Keeps R (m.within wrap part replace) := by
  intro env t
  unfold within
  split
  · exact ⟨by rintro _ _ ⟨⟩; exact h _ t, by rintro _ _ ⟨⟩⟩
  · exact ⟨by rintro _ _ ⟨⟩, by rintro _ _ ⟨⟩; exact h _ t⟩
  · exact ⟨by rintro _ _ ⟨⟩, by rintro _ _ ⟨⟩⟩
  · exact ⟨by rintro _ _ ⟨⟩, by rintro _ _ ⟨⟩⟩

theorem halts_modify {E : ρ → Prop} {f : σ → σ} : Halts E (modify f : Run ρ σ ε Unit) := by
  intro env _ s
  simp

/-! ### Two programs side by side -/

/-- Started in one environment and one state that satisfies `I`, the two programs
end in ways that `E` relates. -/
def Related (I : σ → Prop) (E : Outcome (ε × σ) (α × σ) → Outcome (ε × σ) (α × σ) → Prop)
    (p q : Run ρ σ ε α) : Prop :=
  ∀ env s, I s → E (p env s) (q env s)

/-- Two programs that start with the same part are related if they are related
from there on, and alike where that part does not return. -/
theorem related_bind {I : σ → Prop} {R : σ → σ → Prop}
    {E : Outcome (ε × σ) (β × σ) → Outcome (ε × σ) (β × σ) → Prop} {m : Run ρ σ ε α}
    {f g : α → Run ρ σ ε β} (hm : Keeps R m) (hI : ∀ s s', I s → R s s' → I s')
    (herr : ∀ e s, I s → E (.err (e, s)) (.err (e, s))) (hpanic : E .panic .panic)
    (hdiverge : E .diverge .diverge) (hrest : ∀ a, Related I E (f a) (g a)) :
    Related I E (m >>= f) (m >>= g) := by
  intro env s hs
  rw [bind_apply, bind_apply]
  cases hstart : m env s with
  | ok x => exact hrest x.1 env x.2 (hI s x.2 hs ((hm env s).1 x.1 x.2 hstart))
  | err x => exact herr x.1 x.2 (hI s x.2 hs ((hm env s).2 x.1 x.2 hstart))
  | panic => exact hpanic
  | diverge => exact hdiverge

end Run

end FastDns.Lib
