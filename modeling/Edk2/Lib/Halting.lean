import Mathlib.Tactic.Common

/-!
# Programs that may not return

A program of `Except ε` returns a value or is stopped. A sequence returns when both of its parts do.
-/

namespace Halting

variable {ε α β : Type} {x : Except ε α} {f : α → Except ε β} {a : α} {b : β}

lemma bind_eq_ok : (x >>= f) = .ok b ↔ ∃ a, x = .ok a ∧ f a = .ok b := by
  cases x with
  | error e => simp [bind, Except.bind]
  | ok a => simp [bind, Except.bind]

lemma ok_bind : ((.ok a : Except ε α) >>= f) = f a := rfl

lemma pure_eq_ok {a' : α} : (pure a : Except ε α) = .ok a' ↔ a = a' := by
  simp [pure, Except.pure]

end Halting
