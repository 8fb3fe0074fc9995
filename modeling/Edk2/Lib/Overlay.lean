import Mathlib.Algebra.Order.Group.Nat
import Mathlib.Algebra.Ring.Int.Defs
import Mathlib.Algebra.Ring.Nat
import Mathlib.Tactic.Common

/-!
# Writing a range

A store is a function of its addresses. `overlay` writes a range of it; ranges that do not meet can
be written in any order.
-/

namespace Overlay

variable {β : Type} {d : ℕ → β} {src src' : ℕ → β} {start start' size size' a : ℕ}

/-- The address is in the range. -/
def Covers (start size a : ℕ) : Prop := start ≤ a ∧ a < start + size

instance (start size a : ℕ) : Decidable (Covers start size a) :=
  inferInstanceAs (Decidable (_ ∧ _))

/-- Write a range; the source is counted from its start. -/
def overlay (d : ℕ → β) (start size : ℕ) (src : ℕ → β) : ℕ → β :=
  fun a => if Covers start size a then src (a - start) else d a

@[simp] lemma overlay_of_covers (h : Covers start size a) :
    overlay d start size src a = src (a - start) := if_pos h

@[simp] lemma overlay_of_not_covers (h : ¬Covers start size a) :
    overlay d start size src a = d a := if_neg h

/-- Two ranges that have no address in common. -/
def Apart (start size start' size' : ℕ) : Prop := ∀ a, Covers start size a → ¬Covers start' size' a

lemma overlay_comm (h : Apart start size start' size') :
    overlay (overlay d start size src) start' size' src' =
      overlay (overlay d start' size' src') start size src := by
  funext a
  by_cases ha : Covers start size a
  · simp [ha, h a ha]
  · by_cases ha' : Covers start' size' a <;> simp [ha, ha']

@[simp] lemma overlay_zero : overlay d start 0 src = d := by
  grind [Covers, overlay_of_not_covers]

end Overlay
