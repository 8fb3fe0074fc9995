import Mathlib.Data.List.Basic

/-!
# Windows into a list

`window xs offset len` are the `len` elements of `xs` from the place `offset` on, or as many of them
as there are. The lemmas say which parts of a concatenation a window consists of.
-/

namespace Window

variable {α : Type*} {a b xs : List α} {offset skip len : ℕ}

def window (xs : List α) (offset len : ℕ) : List α := (xs.drop offset).take len

lemma length_window : (window xs offset len).length = min len (xs.length - offset) := by
  simp [window]

lemma length_window_of_le (h : offset + len ≤ xs.length) : (window xs offset len).length = len := by
  rw [length_window]
  omega

lemma window_zero : window xs 0 len = xs.take len := by simp [window]

lemma window_all : window xs 0 xs.length = xs := by simp [window]

/-- A window that reaches beyond the end is the rest of the list. -/
lemma window_of_le (h : xs.length ≤ offset + len) : window xs offset len = xs.drop offset := by
  apply List.take_of_length_le
  simp only [List.length_drop]
  omega

/-- A window of a window. -/
lemma window_window {offset' len' : ℕ} (h : offset' + len' ≤ len) :
    window (window xs offset len) offset' len' = window xs (offset + offset') len' := by
  unfold window
  rw [List.drop_take, List.drop_drop, List.take_take, Nat.min_eq_left (by omega)]

lemma window_min (xs : List α) (offset len : ℕ) :
    window xs offset (min len (xs.length - offset)) = window xs offset len := by
  grind [Nat.min_eq_left, Nat.min_eq_right, window_of_le]

/-- A window that starts behind the first part. -/
lemma window_append_right : window (a ++ b) (a.length + skip) len = window b skip len := by
  unfold window
  rw [List.drop_length_add_append]

/-- A window that lies in the first part. -/
lemma window_append_left (h : skip + len ≤ a.length) :
    window (a ++ b) skip len = window a skip len := by
  grind [List.length_drop, window]

/-- A window that starts in the first part and ends behind it. -/
lemma window_append_across (h₁ : skip ≤ a.length) (h₂ : a.length ≤ skip + len) :
    window (a ++ b) skip len = a.drop skip ++ b.take (len - (a.length - skip)) := by
  grind [List.take_append, List.length_drop, List.take_of_length_le, window]

end Window
