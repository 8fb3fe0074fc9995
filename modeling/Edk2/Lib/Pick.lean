import Mathlib.Data.List.Basic

/-!
# The n-th element that passes a test

A search that runs through a list counts down at each element that passes a test and stops at the
one that brings the counter to zero. It may stop in a part of the list and go on in the rest with
what is left of the counter.
-/

namespace Pick

variable {α : Type} {test : α → Bool} {x : α} {l l' : List α} {n : ℕ}

/-- The `n`-th element that passes the test, counted from one, and what is left of the counter. -/
def pick (test : α → Bool) : List α → ℕ → Option α × ℕ
  | [], n => (none, n)
  | x :: l, n =>
    if test x then
      if n - 1 = 0 then (some x, 0) else pick test l (n - 1)
    else pick test l n

@[simp] lemma pick_nil : pick test [] n = (none, n) := rfl

lemma pick_cons_of_neg (h : test x = false) : pick test (x :: l) n = pick test l n := by
  simp [pick, h]

lemma pick_cons_found (h : test x = true) (hn : n - 1 = 0) :
    pick test (x :: l) n = (some x, 0) := by
  simp [pick, h, hn]

lemma pick_cons_next (h : test x = true) (hn : n - 1 ≠ 0) :
    pick test (x :: l) n = pick test l (n - 1) := by
  simp [pick, h, hn]

/-- The counter reaches zero only at an element that is found. -/
lemma pick_snd_pos (hn : 0 < n) (h : (pick test l n).1 = none) : 0 < (pick test l n).2 := by
  induction l generalizing n with
  | nil => exact hn
  | cons x l ih =>
    by_cases hx : test x = true
    · grind [pick_cons_found, pick_cons_next]
    grind [pick_cons_of_neg]

lemma pick_snd_le : (pick test l n).2 ≤ n := by
  induction l generalizing n with
  | nil => exact Nat.le_refl n
  | cons x l ih =>
    by_cases hx : test x = true
    · by_cases hlast : n - 1 = 0
      · rw [pick_cons_found hx hlast]
        exact Nat.zero_le n
      grind [pick_cons_next, Nat.le_trans]
    · rw [pick_cons_of_neg (by simpa using hx)]
      exact ih

/-- A search that is over in the first part. -/
lemma pick_append_of_some (h : (pick test l n).1 = some x) :
    pick test (l ++ l') n = (some x, 0) := by
  induction l generalizing n with
  | nil => cases h
  | cons y l ih =>
    rw [List.cons_append]
    by_cases hy : test y = true
    · grind [pick_cons_found, pick_cons_next]
    grind [pick_cons_of_neg]

/-- A search that goes on in the second part. -/
lemma pick_append_of_none (h : (pick test l n).1 = none) :
    pick test (l ++ l') n = pick test l' (pick test l n).2 := by
  induction l generalizing n with
  | nil => rfl
  | cons y l ih =>
    rw [List.cons_append]
    by_cases hy : test y = true
    · grind [pick_cons_found, pick_cons_next]
    grind [pick_cons_of_neg]

/-- It is the element at position `n - 1` among those that pass the test. -/
lemma pick_fst_succ (test : α → Bool) (l : List α) (n : ℕ) :
    (pick test l (n + 1)).1 = (l.filter test)[n]? := by
  induction l generalizing n with
  | nil => rfl
  | cons x l ih =>
    by_cases hx : test x = true
    · grind [List.filter_cons_of_pos, pick_cons_found, List.getElem?_cons_zero, pick_cons_next,
        List.getElem?_cons_succ]
    grind [List.filter_cons_of_neg, pick_cons_of_neg]

end Pick
