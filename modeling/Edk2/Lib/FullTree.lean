import Mathlib.Algebra.BigOperators.Group.List.Basic
import Mathlib.Algebra.Order.Ring.Nat
import Mathlib.Data.List.Count

/-!
# Levels of full binary trees

The leaves of a full binary tree weigh as much as its root, if a node weighs twice as much as its
children. Where leaves below some level are raised to it, they weigh too much, but by less than there
are leaves at that level.
-/

namespace FullTree

/-- A full binary tree. -/
inductive Shape
  | leaf
  | node (left right : Shape)

variable {cap d : ℕ} {t : Shape}

def Shape.leaves : Shape → ℕ
  | .leaf => 1
  | .node l r => l.leaves + r.leaves

/-- The levels of the leaves, if the root has level `d` and no leaf may lie below the level `cap`. -/
def Shape.levels (cap : ℕ) : ℕ → Shape → List ℕ
  | d, .leaf => [min d cap]
  | d, .node l r => l.levels cap (d + 1) ++ r.levels cap (d + 1)

/-- The weight of leaves, in units of the weight at the level `cap`. -/
def weigh (cap : ℕ) (levels : List ℕ) : ℕ := (levels.map fun d => 2 ^ (cap - d)).sum

@[simp] lemma weigh_nil : weigh cap [] = 0 := rfl

@[simp] lemma weigh_cons {l : List ℕ} : weigh cap (d :: l) = 2 ^ (cap - d) + weigh cap l := by
  simp [weigh]

@[simp] lemma weigh_append {l l' : List ℕ} : weigh cap (l ++ l') = weigh cap l + weigh cap l' := by
  simp [weigh]

lemma weigh_replicate {n : ℕ} : weigh cap (List.replicate n d) = n * 2 ^ (cap - d) := by
  simp [weigh]

lemma Shape.leaves_pos (t : Shape) : 0 < t.leaves := by
  induction t with
  | leaf => exact Nat.one_pos
  | node l r ihl _ => exact Nat.add_pos_left ihl _

@[simp] lemma Shape.length_levels : (t.levels cap d).length = t.leaves := by
  induction t generalizing d with
  | leaf => rfl
  | node l r ihl ihr => simp [levels, leaves, ihl, ihr]

/-- The levels lie between that of the root and the limit. -/
lemma Shape.levels_bounds {i : ℕ} (h : i ∈ t.levels cap d) : min d cap ≤ i ∧ i ≤ cap := by
  induction t generalizing d with
  | leaf =>
    rw [levels, List.mem_singleton] at h
    omega
  | node l r ihl ihr =>
    grind [levels]

/-- From the limit on, all leaves are raised to it. -/
lemma Shape.levels_of_le (h : cap ≤ d) : t.levels cap d = List.replicate t.leaves cap := by
  induction t generalizing d with
  | leaf => simp [levels, leaves, h]
  | node l r ihl ihr =>
    rw [levels, ihl (by omega), ihr (by omega), leaves, List.replicate_add]

/-- The leaves weigh at least as much as the root, and more by less than there are leaves at the
limit. -/
theorem Shape.weigh_levels (h : d ≤ cap) : ∃ e, weigh cap (t.levels cap d) = 2 ^ (cap - d) + e ∧
    (e = 0 ∨ e < (t.levels cap d).count cap) := by
  induction t generalizing d with
  | leaf => exact ⟨0, by simp [levels, h], .inl rfl⟩
  | node l r ihl ihr =>
    rcases Nat.lt_or_eq_of_le h with hlt | rfl
    · obtain ⟨el, hel, hl⟩ := ihl (d := d + 1) hlt
      obtain ⟨er, her, hr⟩ := ihr (d := d + 1) hlt
      refine ⟨el + er, ?_, ?_⟩
      · have hpow : 2 ^ (cap - d) = 2 * 2 ^ (cap - (d + 1)) := by
          simp [← Nat.pow_succ']
          omega
        rw [levels, weigh_append, hel, her, hpow]
        omega
      · rw [levels, List.count_append]
        omega
    · have hpos := (Shape.node l r).leaves_pos
      rw [levels_of_le le_rfl, weigh_replicate, Nat.sub_self, Nat.pow_zero, Nat.mul_one,
        List.count_replicate_self]
      exact ⟨(Shape.node l r).leaves - 1, by omega, .inr (by omega)⟩

end FullTree
