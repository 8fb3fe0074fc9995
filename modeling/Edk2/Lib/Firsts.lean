import Mathlib.Data.List.Basic

/-!
# The first candidate of each key

A pass over a list takes the candidates whose key was not seen before. It takes the first candidate of
each key that was not seen at the beginning, and leaves the order as it is.
-/

namespace Firsts

variable {α κ : Type} [DecidableEq κ] {key : α → κ} {cand : α → Bool} {seen : List κ} {l : List α}
  {a : α} {k : κ}

/-- The candidates whose keys were not seen before. -/
def firsts (key : α → κ) (cand : α → Bool) : List κ → List α → List α
  | _, [] => []
  | seen, a :: l =>
    if cand a ∧ key a ∉ seen then a :: firsts key cand (seen ++ [key a]) l
    else firsts key cand seen l

lemma firsts_sublist : (firsts key cand seen l).Sublist (l.filter cand) := by
  induction l generalizing seen with
  | nil => exact List.Sublist.refl _
  | cons a l ih =>
    grind [List.filter_cons_of_pos, List.filter_cons_of_neg, firsts]

/-- Of each key the first candidate is taken, unless the key was seen. -/
lemma filter_firsts : (firsts key cand seen l).filter (fun a => key a = k) =
    if k ∈ seen then [] else (l.filter fun a => cand a && key a = k).take 1 := by
  induction l generalizing seen with
  | nil => simp [firsts]
  | cons a l ih =>
    unfold firsts
    by_cases hcand : cand a = true ∧ key a ∉ seen
    · grind
    grind

/-- The first candidate that passes a test is the first one taken that does, if the first candidate of
its key passes the test as well. -/
lemma find_firsts {test : α → Bool} (h : (l.filter fun a => cand a && test a).head? = some a)
    (hnew : key a ∉ seen)
    (hfst : ∀ b, (l.filter fun b => cand b && key b = key a).head? = some b → test b = true) :
    (firsts key cand seen l).find? test = some a := by
  induction l generalizing seen with
  | nil => cases h
  | cons b l ih =>
    by_cases hcand : cand b = true
    · by_cases htest : test b = true
      · grind [List.find?_cons_of_pos, firsts]
      grind [List.find?_cons_of_neg, firsts]
    grind [firsts]

end Firsts
