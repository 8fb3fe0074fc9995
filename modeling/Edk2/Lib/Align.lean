import Mathlib.Algebra.Order.Group.Nat
import Mathlib.Algebra.Ring.Int.Defs
import Mathlib.Data.Nat.Bitwise

/-!
# Alignment

Rounding up to a multiple, and ranges that are laid out one behind the other.
-/

namespace Align

variable {n m k q : ℕ}

/-- The least multiple of `m` from `n` on. -/
def roundUp (n m : ℕ) : ℕ := n + (m - n % m) % m

lemma le_roundUp (n m : ℕ) : n ≤ roundUp n m := Nat.le_add_right _ _

lemma dvd_roundUp (hm : 0 < m) (n : ℕ) : m ∣ roundUp n m := by
  have hlt := Nat.mod_lt n hm
  have hdiv := Nat.div_add_mod n m
  unfold roundUp
  by_cases h : n % m = 0
  · rw [h, Nat.sub_zero, Nat.mod_self, Nat.add_zero]
    exact Nat.dvd_of_mod_eq_zero h
  · rw [Nat.mod_eq_of_lt (by omega)]
    exact ⟨n / m + 1, by rw [Nat.mul_add]; omega⟩

lemma roundUp_of_dvd (h : m ∣ n) : roundUp n m = n := by
  simp [roundUp, Nat.mod_eq_zero_of_dvd h]

lemma roundUp_le (hm : 0 < m) (hle : n ≤ q) (hq : m ∣ q) : roundUp n m ≤ q := by
  have hlt := Nat.mod_lt n hm
  have hmod := Nat.mod_lt (m - n % m) hm
  by_contra hgt
  have hdvd : m ∣ roundUp n m - q := Nat.dvd_sub (dvd_roundUp hm n) hq
  have := Nat.le_of_dvd (by omega) hdvd
  unfold roundUp at this hgt
  omega

/-- The greatest multiple of `m` up to `n`. -/
def roundDown (n m : ℕ) : ℕ := n - n % m

lemma roundDown_le (n m : ℕ) : roundDown n m ≤ n := Nat.sub_le _ _

lemma dvd_roundDown (n m : ℕ) : m ∣ roundDown n m := Nat.dvd_sub_mod n

lemma le_roundDown (hle : q ≤ n) (hq : m ∣ q) : q ≤ roundDown n m := by
  obtain ⟨k, rfl⟩ := hq
  have heq : roundDown n m = m * (n / m) := by
    have hdiv := Nat.div_add_mod n m
    unfold roundDown
    omega
  rw [heq]
  rcases Nat.eq_zero_or_pos m with rfl | hm
  · simp
  · exact Nat.mul_le_mul_left m ((Nat.le_div_iff_mul_le hm).mpr (by rwa [Nat.mul_comm]))

/-- Rounding down from just below the next multiple does not pass a multiple that is not below. -/
lemma roundDown_add_le (hm : 0 < m) (hle : n ≤ q) (hq : m ∣ q) : roundDown (n + (m - 1)) m ≤ q := by
  by_contra hgt
  have hdvd : m ∣ roundDown (n + (m - 1)) m - q := Nat.dvd_sub (dvd_roundDown _ m) hq
  have hstep := Nat.le_of_dvd (by omega) hdvd
  have hdown := roundDown_le (n + (m - 1)) m
  omega

lemma le_roundDown_add (hm : 0 < m) (n : ℕ) : n ≤ roundDown (n + (m - 1)) m := by
  have hlt := Nat.mod_lt (n + (m - 1)) hm
  unfold roundDown
  omega

lemma roundDown_of_dvd (h : m ∣ n) : roundDown n m = n := by
  rw [roundDown, Nat.mod_eq_zero_of_dvd h, Nat.sub_zero]

/-- What is missing of a number up to the next multiple is what is missing of its remainder. -/
lemma mul_sub_mod (hm : 0 < m) (hle : n ≤ m * k) : (m * k - n) % m = (m - n % m) % m := by
  have hlt := Nat.mod_lt n hm
  have hdiv := Nat.div_add_mod n m
  have hquot : n / m ≤ k := Nat.div_le_of_le_mul hle
  by_cases h : n % m = 0
  · obtain ⟨j, hj⟩ := Nat.exists_eq_add_of_le hquot
    have heq : m * k - n = m * j := by rw [hj, Nat.mul_add]; omega
    rw [heq, h, Nat.mul_mod_right, Nat.sub_zero, Nat.mod_self]
  · have hne : n / m ≠ k := fun heq => by rw [heq] at hdiv; omega
    obtain ⟨j, hj⟩ := Nat.exists_eq_add_of_lt (show n / m < k by omega)
    have heq : m * k - n = m * j + (m - n % m) := by
      rw [hj, Nat.mul_add, Nat.mul_add]
      omega
    rw [heq, Nat.mul_add_mod]

/-- The lower bits of a number are its remainder. -/
lemma land_mask (n k : ℕ) : n &&& (2 ^ k - 1) = n % 2 ^ k := Nat.and_two_pow_sub_one_eq_mod n k

end Align
