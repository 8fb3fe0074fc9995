import Mathlib.Algebra.Ring.Int.Defs
import Mathlib.Algebra.Ring.Nat
import Mathlib.Data.Nat.ModEq

/-!
# Sums with end-around carry

A sum with end-around carry is a number modulo `m` that is zero only if the sum is: of the two
representations of zero, `0` stands for the empty sum and `m` for all others.
-/

namespace OnesComplement

variable {m n x a b : ℕ}

/-- The number up to `m` that a sum comes down to. -/
def carried (m n : ℕ) : ℕ := if n = 0 then 0 else (n - 1) % m + 1

@[simp] lemma carried_zero (m : ℕ) : carried m 0 = 0 := rfl

lemma carried_eq_zero : carried m n = 0 ↔ n = 0 := by
  unfold carried
  split_ifs with h
  · simp [h]
  · simp [h]

lemma carried_modEq (m n : ℕ) : carried m n ≡ n [MOD m] := by
  unfold carried
  split_ifs with h
  · rw [h]
  · have hmod := (Nat.mod_modEq (n - 1) m).add_right 1
    rwa [Nat.sub_add_cancel (Nat.pos_of_ne_zero h)] at hmod

lemma carried_le (hm : 0 < m) : carried m n ≤ m := by
  unfold carried
  split_ifs with h
  · exact hm.le
  · exact Nat.mod_lt _ hm

/-- What a sum comes down to is determined by its residue and by its being zero or not. -/
lemma eq_carried (hle : x ≤ m) (hzero : x = 0 ↔ n = 0) (hmod : x ≡ n [MOD m]) :
    x = carried m n := by
  unfold carried
  split_ifs with h
  · exact hzero.mpr h
  · have hx : 0 < x := Nat.pos_of_ne_zero fun h' => h (hzero.mp h')
    have hpred : x - 1 ≡ n - 1 [MOD m] := by
      apply Nat.ModEq.add_right_cancel' 1
      grind
    have hres : x - 1 = (n - 1) % m := by
      rw [← hpred, Nat.mod_eq_of_lt (by omega)]
    omega

lemma carried_of_le (h : n ≤ m) : carried m n = n :=
  (eq_carried h Iff.rfl (Nat.ModEq.refl n)).symm

lemma carried_congr (hm : 0 < m) (hzero : a = 0 ↔ b = 0) (hmod : a ≡ b [MOD m]) :
    carried m a = carried m b :=
  eq_carried (carried_le hm) (carried_eq_zero.trans hzero) ((carried_modEq m a).trans hmod)

/-- Parts of a sum can be brought down before they are added. -/
lemma carried_add (hm : 0 < m) : carried m (carried m a + carried m b) = carried m (a + b) := by
  apply carried_congr hm
  · simp [Nat.add_eq_zero_iff, carried_eq_zero]
  · exact (carried_modEq m a).add (carried_modEq m b)

/-- The carry is added to the rest. -/
lemma carried_fold (hm : 0 < m) (n : ℕ) : carried m (n % (m + 1) + n / (m + 1)) = carried m n := by
  have hdiv := Nat.div_add_mod n (m + 1)
  apply carried_congr hm
  · grind
  · have hbase : m + 1 ≡ 1 [MOD m] := by simp [Nat.ModEq]
    have hsum := (hbase.mul_right (n / (m + 1))).add_right (n % (m + 1))
    rw [hdiv, Nat.one_mul, Nat.add_comm] at hsum
    exact hsum.symm

end OnesComplement
