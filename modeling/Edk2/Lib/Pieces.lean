import Mathlib.Algebra.BigOperators.Group.List.Basic
import Mathlib.Algebra.Ring.Int.Defs
import Mathlib.Algebra.Ring.Nat

/-!
# Pieces of a string

A piece is a list of elements together with the place of the first of them. Pieces are in order
when each one ends before the next one starts. Pieces in order cannot hold more elements than there
is space for; if they fill the space, they lie one behind the other and their concatenation holds at
every place the element of the piece that covers it.
-/

/-- A type whose values are pieces of a string over `α`. -/
class Piece (ι : Type*) (α : outParam Type*) where
  start : ι → ℤ
  data : ι → List α

namespace Piece

variable {ι α : Type*} [Piece ι α] {l l₁ l₂ : List ι} {p q : ι} {a b : ℤ}

/-- The place behind the last element. -/
def stop (p : ι) : ℤ := start p + (data p).length

/-- The piece has an element at the place. -/
def Covers (p : ι) (i : ℤ) : Prop := start p ≤ i ∧ i < stop p

/-- The element at a place that the piece covers. -/
def elementAt (p : ι) (i : ℤ) : Option α := (data p)[(i - start p).toNat]?

/-- Each piece ends before the next one starts. -/
def InOrder (l : List ι) : Prop := l.Pairwise fun p q => stop p ≤ start q

/-- The number of elements in all pieces. -/
def total (l : List ι) : ℤ := (l.map fun p => ((data p).length : ℤ)).sum

/-- The pieces lie one behind the other from `a` to `b`. -/
def Contiguous : ℤ → List ι → ℤ → Prop
  | a, [], b => a = b
  | a, p :: l, b => start p = a ∧ Contiguous (stop p) l b

lemma start_le_stop (p : ι) : start p ≤ stop p := by
  unfold stop
  omega

@[simp] lemma total_nil : total ([] : List ι) = 0 := rfl

@[simp] lemma total_cons (p : ι) (l : List ι) :
    total (p :: l) = (data p).length + total l := by simp [total]

@[simp] lemma total_append (l₁ l₂ : List ι) : total (l₁ ++ l₂) = total l₁ + total l₂ := by
  simp [total]

lemma inOrder_cons : InOrder (p :: l) ↔ (∀ q ∈ l, stop p ≤ start q) ∧ InOrder l :=
  List.pairwise_cons

lemma inOrder_append : InOrder (l₁ ++ l₂) ↔
    InOrder l₁ ∧ InOrder l₂ ∧ ∀ p ∈ l₁, ∀ q ∈ l₂, stop p ≤ start q := List.pairwise_append

/-- A piece between two lists in order. -/
lemma InOrder.insert (h₁ : InOrder l₁) (h₂ : InOrder l₂)
    (h : ∀ p ∈ l₁, ∀ q ∈ l₂, stop p ≤ start q) (hbef : ∀ q ∈ l₁, stop q ≤ start p)
    (hbeh : ∀ q ∈ l₂, stop p ≤ start q) : InOrder (l₁ ++ p :: l₂) := by
  grind [inOrder_append, inOrder_cons]

/-- Every piece in order ends before the last one does. -/
lemma InOrder.stop_le (h : InOrder l) (hlast : l.getLast? = some q) (hp : p ∈ l) :
    stop p ≤ stop q := by
  obtain ⟨l', rfl⟩ := List.getLast?_eq_some_iff.mp hlast
  rw [inOrder_append] at h
  rcases List.mem_append.mp hp with hp | hp
  · exact Int.le_trans (h.2.2 p hp q (by simp)) (start_le_stop q)
  grind

/-- No piece in order starts before the first one does. -/
lemma InOrder.le_start (h : InOrder l) (hhead : ∀ q ∈ l.head?, a ≤ start q) :
    ∀ p ∈ l, a ≤ start p := by
  cases l with
  | nil => simp
  | cons q l =>
    have hq : a ≤ start q := hhead q rfl
    intro p hp
    rcases List.mem_cons.mp hp with rfl | hp
    · exact hq
    · have hqp := (inOrder_cons.mp h).1 p hp
      have hstop := start_le_stop q
      omega

/-- There is not more than the space between the bounds. -/
lemma InOrder.total_le (h : InOrder l) (hab : a ≤ b) (hsta : ∀ p ∈ l, a ≤ start p)
    (hstop : ∀ p ∈ l, stop p ≤ b) : total l ≤ b - a := by
  induction l generalizing a with
  | nil =>
    rw [total_nil]
    omega
  | cons p l ih =>
    grind [inOrder_cons, total_cons, stop]

/-- Pieces that fill the space from `a` to the end of the last one are contiguous. -/
lemma InOrder.contiguous (h : InOrder l) (hsta : ∀ p ∈ l, a ≤ start p)
    (hlast : l.getLast? = some q) (hfull : stop q - a ≤ total l) : Contiguous a l (stop q) := by
  induction l generalizing a with
  | nil => simp at hlast
  | cons p l ih =>
    have hle := h.stop_le hlast (List.mem_cons_self (a := p) (l := l))
    have hord := inOrder_cons.mp h
    have hp := hsta p (by simp)
    have hrest : total l ≤ stop q - stop p :=
      hord.2.total_le hle hord.1 fun r hr => h.stop_le hlast (by simp [hr])
    have hlen : stop p = start p + (data p).length := rfl
    rw [total_cons] at hfull
    have hpa : start p = a := by omega
    refine ⟨hpa, ?_⟩
    cases l with
    | nil =>
      simp only [List.getLast?_singleton, Option.some.injEq] at hlast
      rw [hlast]
      rfl
    | cons r l =>
      apply ih hord.2 hord.1
      · simpa using hlast
      · omega

lemma Contiguous.length_eq (h : Contiguous a l b) : ((l.flatMap data).length : ℤ) = b - a := by
  induction l generalizing a with
  | nil =>
    have h : a = b := h
    simp [h]
  | cons p l ih =>
    have hrest := ih h.2
    have hlen : stop p = start p + (data p).length := rfl
    have hp := h.1
    rw [List.flatMap_cons, List.length_append]
    push_cast
    omega

/-- The concatenation holds what the pieces hold. -/
lemma Contiguous.getElem? (h : Contiguous a l b) {i : ℕ} (hi : i < (l.flatMap data).length) :
    ∃ p ∈ l, Covers p (a + i) ∧ (l.flatMap data)[i]? = elementAt p (a + i) := by
  induction l generalizing a i with
  | nil => simp at hi
  | cons p l ih =>
    obtain ⟨hp, h⟩ := h
    have hlen : stop p = start p + (data p).length := rfl
    rw [List.flatMap_cons, List.length_append] at hi
    rw [List.flatMap_cons]
    by_cases hfst : i < (data p).length
    · refine ⟨p, by simp, ⟨by omega, by omega⟩, ?_⟩
      grind [List.getElem?_append_left, elementAt]
    · obtain ⟨q, hq, hcov, hget⟩ := ih h (i := i - (data p).length) (by omega)
      grind

lemma total_nonneg (l : List ι) : 0 ≤ total l := by
  induction l with
  | nil => simp
  | cons p l ih =>
    rw [total_cons]
    omega

/-- Pieces that cover every place fill the space. -/
lemma InOrder.le_total (h : InOrder l) (hsta : ∀ p ∈ l, a ≤ start p)
    (hcove : ∀ i, a ≤ i → i < b → ∃ p ∈ l, Covers p i) : b - a ≤ total l := by
  induction l generalizing a with
  | nil =>
    by_contra hlt
    obtain ⟨p, hp, -⟩ := hcove a (Int.le_refl a) (by simp at hlt; omega)
    cases hp
  | cons p l ih =>
    have hord := inOrder_cons.mp h
    have hp := hsta p (by simp)
    have hlen : stop p = start p + (data p).length := rfl
    have hnon := total_nonneg l
    have hrest : b - stop p ≤ total l := by
      apply ih hord.2 hord.1
      intro i hi hb
      obtain ⟨q, hq, hcov⟩ := hcove i (by omega) hb
      rcases List.mem_cons.mp hq with rfl | hq
      · have hlt := hcov.2
        omega
      · exact ⟨q, hq, hcov⟩
    rw [total_cons]
    by_cases hab : a < b
    · -- the first place is covered by the first piece, or by one behind an empty first piece
      obtain ⟨q, hq, hcov⟩ := hcove a (Int.le_refl a) hab
      have hqa := hcov.1
      grind
    · omega

/-- Pieces that leave out a place do not fill the space. -/
lemma InOrder.total_lt (h : InOrder l) (hsta : ∀ p ∈ l, a ≤ start p)
    (hstop : ∀ p ∈ l, stop p ≤ b) {i : ℤ} (ha : a ≤ i) (hb : i < b)
    (hhole : ∀ p ∈ l, ¬ Covers p i) : total l < b - a := by
  induction l generalizing a with
  | nil =>
    rw [total_nil]
    omega
  | cons p l ih =>
    have hord := inOrder_cons.mp h
    have hp := hsta p (by simp)
    have hlen : stop p = start p + (data p).length := rfl
    rw [total_cons]
    by_cases hbef : stop p ≤ i
    · grind
    · have hbeh : i < start p := by
        by_contra hcov
        exact hhole p (by simp) ⟨by omega, by omega⟩
      have hrest := hord.2.total_le (hstop p (by simp)) hord.1 fun q hq => hstop q (by simp [hq])
      omega

end Piece
