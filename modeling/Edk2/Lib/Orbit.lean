import Mathlib.Data.Finset.Card

/-!
# Orbits in a finite set

An orbit that stays in a set of `n` points repeats itself within `n` steps, so what holds along its
first `n` steps holds for ever.
-/

namespace Orbit

variable {f : ℕ → ℕ} {n x : ℕ}

/-- Two of the first `n + 1` points are the same. -/
lemma exists_repeat (h : ∀ k, f^[k] x < n) : ∃ i j, i < j ∧ j ≤ n ∧ f^[i] x = f^[j] x := by
  have hcard : (Finset.range n).card < (Finset.range (n + 1)).card := by simp
  have hmaps : ∀ k ∈ Finset.range (n + 1), f^[k] x ∈ Finset.range n :=
    fun k _ => Finset.mem_range.mpr (h k)
  obtain ⟨i, hi, j, hj, hne, heq⟩ := Finset.exists_ne_map_eq_of_card_lt_of_maps_to hcard hmaps
  rw [Finset.mem_range] at hi hj
  rcases lt_or_gt_of_ne hne with hlt | hlt
  · exact ⟨i, j, hlt, by omega, heq⟩
  · exact ⟨j, i, hlt, by omega, heq.symm⟩

/-- A property of the first `n` steps of an orbit in `n` points holds for ever. -/
lemma forall_of_forall_le {p : ℕ → Prop} (h : ∀ k, f^[k] x < n) (hp : ∀ k ≤ n, p (f^[k] x)) :
    ∀ k, p (f^[k] x) := by
  obtain ⟨i, j, hlt, hle, heq⟩ := exists_repeat h
  intro k
  induction k using Nat.strong_induction_on with
  | _ k ih =>
    by_cases hk : k ≤ n
    · exact hp k hk
    · -- behind the repetition the orbit is where it was before
      have hback : f^[k] x = f^[k - j + i] x := by
        rw [Function.iterate_add_apply, heq, ← Function.iterate_add_apply]
        congr 1
        omega
      rw [hback]
      exact ih (k - j + i) (by omega)

end Orbit
