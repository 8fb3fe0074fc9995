import Mathlib.Data.List.Basic

/-!
# Rows of slots

A buffer of records as a function from slots to records: writing one slot, writing a list of
records from a slot on, and moving a block of slots.
-/

/-- A row of slots that hold values of type `α`. -/
abbrev Slots (α : Type*) := ℕ → α

namespace Slots

variable {α : Type*} {b : Slots α} {i j n : ℕ} {x y : α} {l : List α}

def set (b : Slots α) (i : ℕ) (x : α) : Slots α := fun j => if j = i then x else b j

/-- The values of `l` from slot `i` on. -/
def write (b : Slots α) : ℕ → List α → Slots α
  | _, [] => b
  | i, x :: l => (b.set i x).write (i + 1) l

/-- A block of `n` slots moved from `source` to `target`; the two may overlap. -/
def move (b : Slots α) (target source n : ℕ) : Slots α := fun j =>
  if target ≤ j ∧ j < target + n then b (source + (j - target)) else b j

@[simp] lemma set_self (b : Slots α) (i : ℕ) (x : α) : b.set i x i = x := by simp [set]

lemma set_of_ne (h : j ≠ i) : b.set i x j = b j := by simp [set, h]

@[simp] lemma set_set (b : Slots α) (i : ℕ) (x y : α) : (b.set i x).set i y = b.set i y := by
  funext j
  by_cases h : j = i <;> simp [set, h]

@[simp] lemma write_nil (b : Slots α) (i : ℕ) : b.write i [] = b := rfl

@[simp] lemma write_cons (b : Slots α) (i : ℕ) (x : α) (l : List α) :
    b.write i (x :: l) = (b.set i x).write (i + 1) l := rfl

lemma write_append (b : Slots α) (i : ℕ) (l₁ l₂ : List α) :
    b.write i (l₁ ++ l₂) = (b.write i l₁).write (i + l₁.length) l₂ := by
  induction l₁ generalizing b i with
  | nil => rfl
  | cons x l₁ ih =>
    grind [write_cons, List.length_cons]

/-- Writing leaves the slots outside the written ones alone. -/
lemma write_of_lt (h : j < i ∨ i + l.length ≤ j) : b.write i l j = b j := by
  induction l generalizing b i with
  | nil => rfl
  | cons x l ih =>
    rw [List.length_cons] at h
    rw [write_cons, ih (by omega), set_of_ne (by omega)]

/-- What has been written is in its slots. -/
lemma write_add (hn : n < l.length) : b.write i l (i + n) = l[n] := by
  induction l generalizing b i n with
  | nil => simp at hn
  | cons x l ih =>
    cases n with
    | zero => rw [write_cons, write_of_lt (by omega)]; simp
    | succ n =>
      have h := ih (b := b.set i x) (i := i + 1) (Nat.lt_of_succ_lt_succ hn)
      rw [show i + 1 + n = i + (n + 1) by omega] at h
      simpa using h

lemma write_mem (h : i ≤ j) (hj : j < i + l.length) : b.write i l j ∈ l := by
  obtain ⟨n, rfl⟩ := Nat.exists_eq_add_of_le h
  rw [write_add (by omega)]
  exact List.getElem_mem _

lemma move_of_lt {target source : ℕ} (h : j < target ∨ target + n ≤ j) :
    b.move target source n j = b j := by
  unfold move
  rw [if_neg (by omega)]

lemma move_add {target source k : ℕ} (h : k < n) :
    b.move target source n (target + k) = b (source + k) := by
  unfold move
  rw [if_pos (by omega), Nat.add_sub_cancel_left]

end Slots
