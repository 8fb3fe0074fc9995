import Mathlib.Order.Defs.PartialOrder
import Mathlib.Tactic.Common

/-!
# Outcomes of programs that can stop

A program of `EStateM ε σ` either returns a value or stops for good, and leaves a state in both
cases. `Ends r Q E` says that the outcome `r` returns within `Q` or stops within `E`. The rules
below follow the shape of a program; `Moves R m` is the special case of a program that takes every
state to one that is related to it.
-/

namespace Outcome

variable {ε σ α β : Type} {Q Q' : α → σ → Prop} {E E' : ε → σ → Prop} {s : σ}

/-- The outcome is a return that satisfies `Q` or a stop that satisfies `E`. -/
def Ends (r : EStateM.Result ε σ α) (Q : α → σ → Prop) (E : ε → σ → Prop) : Prop :=
  match r with
  | .ok a s => Q a s
  | .error e s => E e s

/-- The state that an outcome leaves. -/
def state : EStateM.Result ε σ α → σ
  | .ok _ s => s
  | .error _ s => s

lemma Ends.mono {r : EStateM.Result ε σ α} (h : Ends r Q E) (hQ : ∀ a s, Q a s → Q' a s)
    (hE : ∀ e s, E e s → E' e s) : Ends r Q' E' := by
  cases r with
  | ok a s => exact hQ a s h
  | error e s => exact hE e s h

lemma Ends.imp {r : EStateM.Result ε σ α} (h : Ends r Q E) (hQ : ∀ a s, Q a s → Q' a s) :
    Ends r Q' E :=
  h.mono hQ fun _ _ h => h

lemma Ends.and {r : EStateM.Result ε σ α} (h : Ends r Q E) (h' : Ends r Q' E') :
    Ends r (fun a s => Q a s ∧ Q' a s) (fun e s => E e s ∧ E' e s) := by
  cases r with
  | ok a s => exact ⟨h, h'⟩
  | error e s => exact ⟨h, h'⟩

lemma Ends.of_ok {r : EStateM.Result ε σ α} {a : α} {s' : σ} (h : Ends r Q E)
    (hr : r = .ok a s') : Q a s' := by
  subst hr
  exact h

lemma Ends.of_error {r : EStateM.Result ε σ α} {e : ε} {s' : σ} (h : Ends r Q E)
    (hr : r = .error e s') : E e s' := by
  subst hr
  exact h

/-- What holds after a return and after a stop holds of the state that is left. -/
lemma Ends.state {r : EStateM.Result ε σ α} {P : σ → Prop} (h : Ends r Q E)
    (hQ : ∀ a s, Q a s → P s) (hE : ∀ e s, E e s → P s) : P (Outcome.state r) := by
  cases r with
  | ok a s => exact hQ a s h
  | error e s => exact hE e s h

lemma ends_pure {a : α} (h : Q a s) : Ends ((pure a : EStateM ε σ α) s) Q E := h

lemma ends_bind {x : EStateM ε σ α} {f : α → EStateM ε σ β} {Q : β → σ → Prop}
    (h : Ends (x s) (fun a s' => Ends (f a s') Q E) E) : Ends ((x >>= f) s) Q E := by
  change Ends (EStateM.bind x f s) Q E
  unfold EStateM.bind
  cases hx : x s with
  | ok a s' =>
    rw [hx] at h
    exact h
  | error e s' =>
    rw [hx] at h
    exact h

lemma ends_get {Q : σ → σ → Prop} (h : Q s s) : Ends ((get : EStateM ε σ σ) s) Q E := h

lemma ends_set {t : σ} {Q : PUnit → σ → Prop} (h : Q ⟨⟩ t) :
    Ends ((set t : EStateM ε σ PUnit) s) Q E := h

lemma ends_modify {f : σ → σ} {Q : PUnit → σ → Prop} (h : Q ⟨⟩ (f s)) :
    Ends ((modify f : EStateM ε σ PUnit) s) Q E := h

lemma ends_throw {e : ε} (h : E e s) : Ends ((throw e : EStateM ε σ α) s) Q E := h

lemma ends_ite {c : Prop} [Decidable c] {x y : EStateM ε σ α} (hx : c → Ends (x s) Q E)
    (hy : ¬ c → Ends (y s) Q E) : Ends ((if c then x else y) s) Q E := by
  split_ifs with hc
  · exact hx hc
  · exact hy hc

lemma ends_ok {a : α} (h : Q a s) : Ends (.ok a s : EStateM.Result ε σ α) Q E := h

/-- The state before a `set` is not looked at. -/
lemma set_bind (t s s' : σ) (f : PUnit → EStateM ε σ β) : (set t >>= f) s' = (set t >>= f) s := rfl

lemma modify_bind (m : σ → σ) (s : σ) (f : PUnit → EStateM ε σ β) :
    (modify m >>= f) s = f ⟨⟩ (m s) := rfl

section Return

variable {s' : σ} {a b : α}

/-- A program that returns has run each of its parts to its return. -/
lemma bind_eq_ok {x : EStateM ε σ α} {f : α → EStateM ε σ β} {b : β} :
    (x >>= f) s = .ok b s' ↔ ∃ a s₁, x s = .ok a s₁ ∧ f a s₁ = .ok b s' := by
  change EStateM.bind x f s = .ok b s' ↔ _
  unfold EStateM.bind
  cases x s with
  | ok a s₁ =>
    simp
  | error e s₁ =>
    simp

lemma pure_eq_ok : (pure a : EStateM ε σ α) s = .ok b s' ↔ a = b ∧ s = s' := by
  constructor
  · intro h
    cases h
    exact ⟨rfl, rfl⟩
  · rintro ⟨rfl, rfl⟩
    rfl

lemma get_eq_ok {t : σ} : (get : EStateM ε σ σ) s = .ok t s' ↔ s = t ∧ s = s' := pure_eq_ok

lemma set_eq_ok {t : σ} {u : PUnit} : (set t : EStateM ε σ PUnit) s = .ok u s' ↔ t = s' := by
  constructor
  · intro h
    cases h
    rfl
  · rintro rfl
    rfl

lemma modify_eq_ok {f : σ → σ} {u : PUnit} :
    (modify f : EStateM ε σ PUnit) s = .ok u s' ↔ f s = s' := set_eq_ok (s := s)

lemma throw_ne_ok {e : ε} : (throw e : EStateM ε σ α) s ≠ .ok a s' := nofun

/-- The outcome is a return that passes a test. -/
def returns (test : α → σ → Bool) : EStateM.Result ε σ α → Bool
  | .ok a s => test a s
  | .error _ _ => false

lemma exists_of_returns {test : α → σ → Bool} {r : EStateM.Result ε σ α}
    (h : returns test r = true) : ∃ a s, r = .ok a s ∧ test a s = true := by
  cases r with
  | ok a s => exact ⟨a, s, rfl, h⟩
  | error e s => cases h

end Return

/-- Both return, in the same state and with values related by `R`, or both stop alike. -/
def Twin (R : α → α → σ → Prop) : EStateM.Result ε σ α → EStateM.Result ε σ α → Prop
  | .ok a s, .ok b t => t = s ∧ R a b s
  | .error e s, .error f t => f = e ∧ t = s
  | _, _ => False

lemma twin_pure {R : α → α → σ → Prop} {a b : α} (h : R a b s) :
    Twin R ((pure a : EStateM ε σ α) s) ((pure b : EStateM ε σ α) s) := ⟨rfl, h⟩

lemma twin_throw {R : α → α → σ → Prop} {e : ε} :
    Twin R ((throw e : EStateM ε σ α) s) ((throw e : EStateM ε σ α) s) := ⟨rfl, rfl⟩

/-- The same program comes first. -/
lemma twin_bind {R : β → β → σ → Prop} {x : EStateM ε σ α} {f g : α → EStateM ε σ β}
    (hx : Ends (x s) Q E) (h : ∀ a s', Q a s' → Twin R (f a s') (g a s')) :
    Twin R ((x >>= f) s) ((x >>= g) s) := by
  change Twin R (EStateM.bind x f s) (EStateM.bind x g s)
  unfold EStateM.bind
  cases hrun : x s with
  | ok a s' =>
    rw [hrun] at hx
    exact h a s' hx
  | error e s' => exact ⟨rfl, rfl⟩

lemma twin_get {R : β → β → σ → Prop} {f g : σ → EStateM ε σ β} (h : Twin R (f s s) (g s s)) :
    Twin R ((get >>= f) s) ((get >>= g) s) := h

lemma twin_set {R : β → β → σ → Prop} {t : σ} {f g : PUnit → EStateM ε σ β}
    (h : Twin R (f ⟨⟩ t) (g ⟨⟩ t)) : Twin R ((set t >>= f) s) ((set t >>= g) s) := h

/-- Two programs that go side by side come first. -/
lemma Twin.bind {S : α → α → σ → Prop} {R : β → β → σ → Prop} {x y : EStateM ε σ α}
    {f g : α → EStateM ε σ β} (hxy : Twin S (x s) (y s)) (hx : Ends (x s) Q E)
    (h : ∀ a b s', S a b s' → Q a s' → Twin R (f a s') (g b s')) :
    Twin R ((x >>= f) s) ((y >>= g) s) := by
  change Twin R (EStateM.bind x f s) (EStateM.bind y g s)
  unfold EStateM.bind
  cases hxs : x s with
  | ok a s' =>
    cases hys : y s with
    | ok b t =>
      rw [hxs, hys] at hxy
      rw [hxs] at hx
      obtain ⟨rfl, hS⟩ := hxy
      exact h a b t hS hx
    | error e t =>
      rw [hxs, hys] at hxy
      exact hxy.elim
  | error e s' =>
    cases hys : y s with
    | ok b t =>
      rw [hxs, hys] at hxy
      exact hxy.elim
    | error f t =>
      rw [hxs, hys] at hxy
      exact hxy

/-- What one of two programs returns, the other returns as well. -/
lemma Twin.of_ok {R : α → α → σ → Prop} {r r' : EStateM.Result ε σ α} {a : α}
    (h : Twin R r r') (hr : r = .ok a s) : ∃ b, r' = .ok b s ∧ R a b s := by
  subst hr
  cases r' with
  | ok b t =>
    obtain ⟨rfl, hR⟩ := h
    exact ⟨b, rfl, hR⟩
  | error e t => exact h.elim

lemma twin_ite {R : α → α → σ → Prop} {c : Prop} [Decidable c] {x x' y y' : EStateM ε σ α}
    (hx : c → Twin R (x s) (x' s)) (hy : ¬ c → Twin R (y s) (y' s)) :
    Twin R ((if c then x else y) s) ((if c then x' else y') s) := by
  split_ifs with hc
  · exact hx hc
  · exact hy hc

-- the rules above follow a program, its outcome is not to be computed
attribute [irreducible] Ends Twin

/-- Whether it returns or stops, the program leaves a state related to the one it started in. -/
def Moves (R : σ → σ → Prop) (m : EStateM ε σ α) : Prop :=
  ∀ s, Ends (m s) (fun _ s' => R s s') (fun _ s' => R s s')

section Moves

variable {R : σ → σ → Prop}

lemma Moves.pure [Std.Refl R] (a : α) : Moves R (pure a : EStateM ε σ α) :=
  fun s => ends_pure (refl_of R s)

lemma Moves.throw [Std.Refl R] (e : ε) : Moves R (throw e : EStateM ε σ α) :=
  fun s => ends_throw (refl_of R s)

lemma Moves.get [Std.Refl R] : Moves R (get : EStateM ε σ σ) := fun s => ends_get (refl_of R s)

lemma Moves.bind [IsTrans σ R] {x : EStateM ε σ α} {f : α → EStateM ε σ β} (hx : Moves R x)
    (hf : ∀ a, Moves R (f a)) : Moves R (x >>= f) := by
  intro s
  apply ends_bind
  refine (hx s).mono (fun a s' h => ?_) fun _ _ h => h
  exact (hf a s').mono (fun _ _ h' => trans_of R h h') fun _ _ h' => trans_of R h h'

lemma Moves.ite {c : Prop} [Decidable c] {x y : EStateM ε σ α} (hx : Moves R x)
    (hy : Moves R y) : Moves R (if c then x else y) := by
  split_ifs
  · exact hx
  · exact hy

lemma Moves.of_ok {m : EStateM ε σ α} (h : Moves R m) {a : α} {s' : σ} (hm : m s = .ok a s') :
    R s s' :=
  (h s).of_ok hm

end Moves

end Outcome
