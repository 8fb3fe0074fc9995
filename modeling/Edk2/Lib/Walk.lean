import Mathlib.Data.Finset.Card
import Edk2.Lib.Halting

/-!
# Walks

A walk repeats a step that goes on to another point, returns, or stops. The steps are cut off after
a number of them. In a finite set of points a walk returns exactly when no step stops and no point
comes back.
-/

namespace Walk

open Relation (ReflTransGen TransGen)

variable {α β ε : Type} {step : α → Except ε (α ⊕ β)} {out : ε} {fuel : ℕ} {x y : α} {b : β}

/-- At most `fuel` steps. -/
def walk (step : α → Except ε (α ⊕ β)) (out : ε) : ℕ → α → Except ε β
  | 0, _ => .error out
  | fuel + 1, x =>
    match step x with
    | .error e => .error e
    | .ok (.inl y) => walk step out fuel y
    | .ok (.inr b) => .ok b

/-- The walk goes on from the first point to the second one. -/
def GoesTo (step : α → Except ε (α ⊕ β)) (x y : α) : Prop := step x = .ok (.inl y)

@[simp] lemma walk_zero : walk step out 0 x = .error out := rfl

lemma walk_of_goesTo (h : GoesTo step x y) : walk step out (fuel + 1) x = walk step out fuel y := by
  unfold GoesTo at h
  rw [walk, h]

lemma walk_of_returns (h : step x = .ok (.inr b)) : walk step out (fuel + 1) x = .ok b := by
  rw [walk, h]

/-- A walk that returns made a step: it went on, or it returned. -/
lemma walk_eq_ok (h : walk step out fuel x = .ok b) :
    ∃ fuel', fuel = fuel' + 1 ∧
      ((∃ y, GoesTo step x y ∧ walk step out fuel' y = .ok b) ∨ step x = .ok (.inr b)) := by
  cases fuel with
  | zero => exact absurd h nofun
  | succ fuel =>
    refine ⟨fuel, rfl, ?_⟩
    rw [walk] at h
    split at h
    · exact absurd h nofun
    · exact .inl ⟨_, ‹_›, h⟩
    grind

lemma GoesTo.unique (h : GoesTo step x y) {y' : α} (h' : GoesTo step x y') : y = y' := by
  grind [GoesTo]

/-- From a point with a walk that returns, there is no infinite walk. -/
lemma acc_of_walk (h : walk step out fuel x = .ok b) : Acc (fun y x => GoesTo step x y) x := by
  induction fuel generalizing x with
  | zero => exact absurd h nofun
  | succ fuel ih =>
    refine ⟨x, fun y hgo => ?_⟩
    rw [walk_of_goesTo hgo] at h
    exact ih h

/-- The point where a walk returns. -/
lemma exists_returns_of_walk (h : walk step out fuel x = .ok b) :
    ∃ y, ReflTransGen (GoesTo step) x y ∧ step y = .ok (.inr b) := by
  induction fuel generalizing x with
  | zero => exact absurd h nofun
  | succ fuel ih =>
    obtain ⟨_, hfuel, ⟨y, hgo, hy⟩ | hret⟩ := walk_eq_ok h
    · obtain rfl := Nat.succ.inj hfuel
      obtain ⟨z, hrea, hret⟩ := ih hy
      exact ⟨z, .head hgo hrea, hret⟩
    · exact ⟨x, .refl, hret⟩

/-- A walk that returns does so from every point that it goes through. -/
lemma walk_of_reached (h : walk step out fuel x = .ok b) (hrea : ReflTransGen (GoesTo step) x y) :
    ∃ fuel', walk step out fuel' y = .ok b := by
  induction hrea with
  | refl => exact ⟨fuel, h⟩
  | tail _ hgo ih =>
    obtain ⟨fuel', hwalk⟩ := ih
    obtain ⟨fuel'', -, ⟨z, hgo', hz⟩ | hret⟩ := walk_eq_ok hwalk
    · rw [hgo.unique hgo']
      exact ⟨fuel'', hz⟩
    grind [GoesTo]

/-- A walk that returns comes back to no point. -/
lemma not_transGen_of_walk (h : walk step out fuel x = .ok b) : ¬ TransGen (GoesTo step) x x := by
  intro hcyc
  have hacc : Acc (TransGen fun y x => GoesTo step x y) x := (acc_of_walk h).transGen
  rw [← Relation.transGen_swap] at hcyc
  clear h
  induction hacc with
  | intro x _ ih => exact ih x hcyc hcyc

/-- Where no step stops and no point comes back, a walk in fewer points than it has steps returns.
`visited` are the points that it went through before. -/
lemma walk_returns_of_visited {step : ℕ → Except ε (ℕ ⊕ β)} {n x : ℕ}
    (hbou : ∀ y r, step y = .ok r → y < n) (visited : Finset ℕ) (fuel : ℕ)
    (hok : ∀ y, ReflTransGen (GoesTo step) x y → ∃ r, step y = .ok r)
    (hacy : ∀ y, ReflTransGen (GoesTo step) x y → ¬ TransGen (GoesTo step) y y)
    (hvis : ∀ y ∈ visited, y < n ∧ TransGen (GoesTo step) y x)
    (hcard : visited.card + fuel = n + 1) : ∃ b, walk step out fuel x = .ok b := by
  induction fuel generalizing x visited with
  | zero =>
    have hle : visited.card ≤ (Finset.range n).card :=
      Finset.card_le_card fun y hy => Finset.mem_range.mpr (hvis y hy).1
    rw [Finset.card_range] at hle
    omega
  | succ fuel ih =>
    obtain ⟨r, hr⟩ := hok x .refl
    cases r with
    | inr b => exact ⟨b, walk_of_returns hr⟩
    | inl y =>
      have hgo : GoesTo step x y := hr
      have hnew : x ∉ visited := fun hx => hacy x .refl (hvis x hx).2
      rw [walk_of_goesTo hgo]
      refine ih (insert x visited) (fun z hz => hok z (.head hgo hz))
        (fun z hz => hacy z (.head hgo hz)) (fun z hz => ?_) ?_
      · grind
      · rw [Finset.card_insert_of_notMem hnew]
        omega

/-- A walk that returns, after any number of steps, stops nowhere and comes back to no point. -/
lemma conditions_of_walk (h : walk step out fuel x = .ok b) :
    (∀ y, ReflTransGen (GoesTo step) x y → ∃ r, step y = .ok r) ∧
      ∀ y, ReflTransGen (GoesTo step) x y → ¬ TransGen (GoesTo step) y y := by
  refine ⟨fun y hy => ?_, fun y hy => ?_⟩
  · obtain ⟨fuel, hfuel⟩ := walk_of_reached h hy
    obtain ⟨-, -, ⟨z, hgo, -⟩ | hret⟩ := walk_eq_ok hfuel
    · exact ⟨_, hgo⟩
    · exact ⟨_, hret⟩
  · obtain ⟨fuel, hfuel⟩ := walk_of_reached h hy
    exact not_transGen_of_walk hfuel

/-- A walk in `n` points returns exactly when no step stops and no point comes back. -/
theorem walk_returns_iff {step : ℕ → Except ε (ℕ ⊕ β)} {n x : ℕ}
    (hbou : ∀ y r, step y = .ok r → y < n) :
    (∃ b, walk step out (n + 1) x = .ok b) ↔
      (∀ y, ReflTransGen (GoesTo step) x y → ∃ r, step y = .ok r) ∧
        ∀ y, ReflTransGen (GoesTo step) x y → ¬ TransGen (GoesTo step) y y := by
  constructor
  · rintro ⟨b, hwalk⟩
    exact conditions_of_walk hwalk
  · rintro ⟨hok, hacy⟩
    exact walk_returns_of_visited hbou ∅ (n + 1) hok hacy (by simp) (by simp)

/-- A walk to a point where it returns, with as many steps as it takes. -/
lemma exists_walk_of_reached (hrea : ReflTransGen (GoesTo step) x y)
    (hret : step y = .ok (.inr b)) : ∃ fuel, walk step out fuel x = .ok b := by
  induction hrea using ReflTransGen.head_induction_on with
  | refl => exact ⟨1, walk_of_returns hret⟩
  | head hgo _ ih =>
    obtain ⟨fuel, hfuel⟩ := ih
    exact ⟨fuel + 1, (walk_of_goesTo hgo).trans hfuel⟩

/-- The number of steps does not matter for the result. -/
lemma walk_unique {fuel' : ℕ} {b' : β} (h : walk step out fuel x = .ok b)
    (h' : walk step out fuel' x = .ok b') : b = b' := by
  induction fuel generalizing x fuel' with
  | zero => exact absurd h nofun
  | succ fuel ih =>
    obtain ⟨_, hfuel, ⟨y, hgo, hy⟩ | hret⟩ := walk_eq_ok h
    · obtain rfl := Nat.succ.inj hfuel
      obtain ⟨_, rfl, ⟨z, hgo', hz⟩ | hret'⟩ := walk_eq_ok h'
      · rw [← hgo.unique hgo'] at hz
        exact ih hy hz
      grind [GoesTo]
    · obtain ⟨_, rfl, ⟨z, hgo', -⟩ | hret'⟩ := walk_eq_ok h'
      · grind [GoesTo]
      grind

/-- A walk in `n` points returns at the point where it comes to a return. -/
lemma walk_eq_of_reached {step : ℕ → Except ε (ℕ ⊕ β)} {n x y : ℕ}
    (hbou : ∀ y r, step y = .ok r → y < n) (hrea : ReflTransGen (GoesTo step) x y)
    (hret : step y = .ok (.inr b)) : walk step out (n + 1) x = .ok b := by
  obtain ⟨fuel, hfuel⟩ := @exists_walk_of_reached _ _ _ step out _ _ _ hrea hret
  obtain ⟨b', hwalk⟩ := (walk_returns_iff hbou).mpr (conditions_of_walk hfuel)
  rw [walk_unique hfuel hwalk]
  exact hwalk

end Walk
