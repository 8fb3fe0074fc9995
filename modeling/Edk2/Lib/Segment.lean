import Mathlib.Data.List.Chain
import Mathlib.Data.Set.Basic

/-!
# Labelled segments of the natural numbers

A list of closed segments `[lo, hi]`, each carrying a label, tiles an interval when consecutive
segments meet without gap or overlap. The label of a point is then well defined, splitting a
segment and joining equally labelled neighbours do not change it, and a tiling whose neighbours
carry different labels is the unique coarsest one.
-/

/-- A type whose values are closed segments of `ℕ` carrying a label. -/
class Segment (α : Type*) (β : outParam Type*) where
  lo : α → ℕ
  hi : α → ℕ
  label : α → β

namespace Segment

variable {α β : Type*} [Segment α β]

/-- The point `a` lies in the segment `e`. -/
def Contains (e : α) (a : ℕ) : Prop := lo e ≤ a ∧ a ≤ hi e

instance (e : α) (a : ℕ) : Decidable (Contains e a) := inferInstanceAs (Decidable (_ ∧ _))

/-- `Tiles s l t`: the segments of `l`, in order, partition the half-open interval `[s, t)`. -/
def Tiles : ℕ → List α → ℕ → Prop
  | s, [], t => s = t
  | s, e :: l, t => lo e = s ∧ s ≤ hi e ∧ Tiles (hi e + 1) l t

/-- The label of the first segment that contains `a`. -/
def labelAt (l : List α) (a : ℕ) : Option β :=
  (l.find? fun e => decide (Contains e a)).map label

/-- No two neighbours carry the same label. -/
def Coalesced (l : List α) : Prop := l.IsChain fun e f => label e ≠ label f

@[simp] lemma tiles_nil {s t : ℕ} : Tiles s ([] : List α) t ↔ s = t := Iff.rfl

@[simp] lemma tiles_cons {s t : ℕ} {e : α} {l : List α} :
    Tiles s (e :: l) t ↔ lo e = s ∧ s ≤ hi e ∧ Tiles (hi e + 1) l t := Iff.rfl

lemma Tiles.le {s t : ℕ} {l : List α} (h : Tiles s l t) : s ≤ t := by
  induction l generalizing s with
  | nil => exact le_of_eq h
  | cons e l ih =>
    obtain ⟨-, hle, h⟩ := h
    have := ih h
    omega

lemma tiles_append {s t : ℕ} {l₁ l₂ : List α} :
    Tiles s (l₁ ++ l₂) t ↔ ∃ m, Tiles s l₁ m ∧ Tiles m l₂ t := by
  induction l₁ generalizing s with
  | nil => simp
  | cons e l₁ ih =>
    grind [tiles_cons]

lemma Tiles.append {s m t : ℕ} {l₁ l₂ : List α} (h₁ : Tiles s l₁ m) (h₂ : Tiles m l₂ t) :
    Tiles s (l₁ ++ l₂) t :=
  tiles_append.mpr ⟨m, h₁, h₂⟩

/-- Every segment of a tiling is nonempty and lies inside the tiled interval. -/
lemma Tiles.bounds {s t : ℕ} {l : List α} (h : Tiles s l t) :
    ∀ e ∈ l, s ≤ lo e ∧ lo e ≤ hi e ∧ hi e < t := by
  induction l generalizing s with
  | nil => simp
  | cons e l ih =>
    obtain ⟨hlo, hle, h⟩ := h
    intro f hf
    have hlt := h.le
    grind

/-- The segments of a tiling are sorted by their lower end and do not meet. -/
lemma Tiles.pairwise {s t : ℕ} {l : List α} (h : Tiles s l t) :
    l.Pairwise fun e f => hi e < lo f := by
  induction l generalizing s with
  | nil => exact List.Pairwise.nil
  | cons e l ih =>
    obtain ⟨-, -, h⟩ := h
    refine List.Pairwise.cons (fun f hf => ?_) (ih h)
    have := h.bounds f hf
    omega

/-- Every point of the tiled interval lies in a segment. -/
lemma Tiles.exists_contains {s t a : ℕ} {l : List α} (h : Tiles s l t) (hs : s ≤ a)
    (ht : a < t) : ∃ e ∈ l, Contains e a := by
  induction l generalizing s with
  | nil => exact absurd h (by simp only [tiles_nil]; omega)
  | cons e l ih =>
    obtain ⟨hlo, hle, h⟩ := h
    by_cases ha : a ≤ hi e
    · exact ⟨e, List.mem_cons_self, by omega, ha⟩
    grind

/-- A point lies in at most one segment. -/
lemma Tiles.contains_unique {s t a : ℕ} {l : List α} (h : Tiles s l t) {e f : α} (he : e ∈ l)
    (hf : f ∈ l) (hea : Contains e a) (hfa : Contains f a) : e = f := by
  induction l generalizing s with
  | nil => cases he
  | cons g l ih =>
    obtain ⟨-, -, h⟩ := h
    rcases List.mem_cons.mp he with rfl | he' <;> rcases List.mem_cons.mp hf with rfl | hf'
    · rfl
    · have := h.bounds f hf'
      unfold Contains at hea hfa
      omega
    · have := h.bounds e he'
      unfold Contains at hea hfa
      omega
    · exact ih h he' hf'

@[simp] lemma labelAt_nil (a : ℕ) : labelAt ([] : List α) a = none := rfl

lemma labelAt_cons (e : α) (l : List α) (a : ℕ) :
    labelAt (e :: l) a = if Contains e a then some (label e) else labelAt l a := by
  unfold labelAt
  by_cases h : Contains e a <;> simp [h]

lemma labelAt_append (l₁ l₂ : List α) (a : ℕ) :
    labelAt (l₁ ++ l₂) a = (labelAt l₁ a).or (labelAt l₂ a) := by
  induction l₁ with
  | nil => simp
  | cons e l₁ ih =>
    grind [labelAt_cons]

/-- Outside the tiled interval no point has a label. -/
lemma Tiles.labelAt_eq_none {s t a : ℕ} {l : List α} (h : Tiles s l t) (ha : a < s ∨ t ≤ a) :
    labelAt l a = none := by
  induction l generalizing s with
  | nil => rfl
  | cons e l ih =>
    obtain ⟨hlo, hle, h⟩ := h
    have hlt := h.le
    rw [labelAt_cons, if_neg (by unfold Contains; omega), ih h (by omega)]

/-- Inside the tiled interval every point has a label. -/
lemma Tiles.labelAt_isSome {s t a : ℕ} {l : List α} (h : Tiles s l t) (hs : s ≤ a)
    (ht : a < t) : (labelAt l a).isSome := by
  obtain ⟨e, he, hc⟩ := h.exists_contains hs ht
  grind [labelAt, Option.isSome_map, List.find?_isSome]

lemma Tiles.labelAt_append_left {s m a : ℕ} {l₁ l₂ : List α} (h₁ : Tiles s l₁ m)
    (hs : s ≤ a) (hm : a < m) : labelAt (l₁ ++ l₂) a = labelAt l₁ a := by
  rw [labelAt_append]
  obtain ⟨x, hx⟩ := Option.isSome_iff_exists.mp (h₁.labelAt_isSome hs hm)
  simp [hx]

lemma Tiles.labelAt_append_right {s m a : ℕ} {l₁ l₂ : List α} (h₁ : Tiles s l₁ m)
    (hm : m ≤ a) : labelAt (l₁ ++ l₂) a = labelAt l₂ a := by
  rw [labelAt_append, h₁.labelAt_eq_none (Or.inr hm), Option.none_or]

/-- In a tiling the label of a point is the label of the segment that contains it. -/
lemma Tiles.labelAt_eq {s t a : ℕ} {l : List α} (h : Tiles s l t) {e : α} (he : e ∈ l)
    (hc : Contains e a) : labelAt l a = some (label e) := by
  induction l generalizing s with
  | nil => cases he
  | cons g l ih =>
    obtain ⟨hlo, hle, h⟩ := h
    rw [labelAt_cons]
    rcases List.mem_cons.mp he with rfl | he
    · rw [if_pos hc]
    · have := h.bounds e he
      grind [Contains]

/-- Replacing two neighbours by one segment that spans both keeps the tiling. -/
lemma Tiles.join {s t : ℕ} {e f g : α} {l : List α} (h : Tiles s (e :: f :: l) t)
    (hlo : lo g = lo e) (hhi : hi g = hi f) : Tiles s (g :: l) t := by
  obtain ⟨he, hle, hf, hlf, h⟩ := h
  exact ⟨hlo.trans he, by omega, hhi ▸ h⟩

/-- Joining two equally labelled neighbours changes no label. -/
lemma Tiles.labelAt_join {s t : ℕ} {e f g : α} {l : List α} (h : Tiles s (e :: f :: l) t)
    (hlo : lo g = lo e) (hhi : hi g = hi f) (hge : label g = label e)
    (hgf : label g = label f) (a : ℕ) : labelAt (g :: l) a = labelAt (e :: f :: l) a := by
  obtain ⟨hes, hle, hfs, hlf, -⟩ := h
  grind [labelAt_cons, Contains]

end Segment

/-!
## Disjoint covers by labelled segments

A list of segments, in any order, covers a set of points when the segments are nonempty, do not
meet, and contain exactly the points of the set. It is separated when no two segments that touch
carry the same label. Both are about the segments alone and not about their order.
-/

namespace Segment

variable {α β : Type*} [Segment α β] {e f g : α} {l l' : List α} {S : Set ℕ}

/-- The points of a segment. -/
def points (e : α) : Set ℕ := {a | Contains e a}

@[simp] lemma mem_points {a : ℕ} : a ∈ points e ↔ Contains e a := Iff.rfl

/-- Two segments do not meet. -/
def Apart (e f : α) : Prop := hi e < lo f ∨ hi f < lo e

lemma Apart.symm (h : Apart e f) : Apart f e := Or.symm h

/-- The segments are nonempty, do not meet and contain exactly the points of `S`. -/
structure Covers (l : List α) (S : Set ℕ) : Prop where
  nonempty : ∀ e ∈ l, lo e ≤ hi e
  apart : l.Pairwise Apart
  mem_iff : ∀ a, a ∈ S ↔ ∃ e ∈ l, Contains e a

/-- Segments that touch carry different labels. -/
def Separated (l : List α) : Prop := ∀ e ∈ l, ∀ f ∈ l, hi e + 1 = lo f → label e ≠ label f

lemma covers_nil : Covers ([] : List α) ∅ := ⟨by simp, .nil, by simp⟩

lemma separated_nil : Separated ([] : List α) := by simp [Separated]

lemma Covers.perm (h : Covers l S) (hp : l.Perm l') : Covers l' S where
  nonempty e he := h.nonempty e (hp.mem_iff.mpr he)
  apart := h.apart.perm hp fun h => h.symm
  mem_iff a := by simp only [h.mem_iff, hp.mem_iff]

lemma Separated.perm (h : Separated l) (hp : l.Perm l') : Separated l' :=
  fun e he f hf => h e (hp.mem_iff.mpr he) f (hp.mem_iff.mpr hf)

lemma Separated.tail (h : Separated (e :: l)) : Separated l :=
  fun _ hf _ hg => h _ (List.mem_cons_of_mem _ hf) _ (List.mem_cons_of_mem _ hg)

/-- A segment takes its points with it. -/
lemma Covers.tail (h : Covers (e :: l) S) : Covers l (S \ points e) where
  nonempty f hf := h.nonempty f (List.mem_cons_of_mem _ hf)
  apart := (List.pairwise_cons.mp h.apart).2
  mem_iff a := by
    have hap := (List.pairwise_cons.mp h.apart).1
    constructor
    · rintro ⟨ha, hne⟩
      obtain ⟨f, hf, hc⟩ := (h.mem_iff a).mp ha
      rcases List.mem_cons.mp hf with rfl | hf
      · exact absurd hc hne
      · exact ⟨f, hf, hc⟩
    · rintro ⟨f, hf, hc⟩
      refine ⟨(h.mem_iff a).mpr ⟨f, List.mem_cons_of_mem _ hf, hc⟩, fun he => ?_⟩
      grind [mem_points, Contains, Apart]

/-- A segment whose points are not covered yet is added. -/
lemma Covers.cons (h : Covers l S) (hne : lo e ≤ hi e) (hout : ∀ a ∈ S, ¬ Contains e a) :
    Covers (e :: l) (S ∪ points e) where
  nonempty f hf := by
    rcases List.mem_cons.mp hf with rfl | hf
    · exact hne
    · exact h.nonempty f hf
  apart := by
    refine List.pairwise_cons.mpr ⟨fun f hf => ?_, h.apart⟩
    have hfne := h.nonempty f hf
    by_contra hmeet
    -- the larger of the two lower ends lies in both segments
    have hin : ∀ a, Contains f a → ¬ Contains e a :=
      fun a ha => hout a ((h.mem_iff a).mpr ⟨f, hf, ha⟩)
    have hmax := hin (max (lo e) (lo f))
    simp only [Apart, Contains] at hmeet hmax
    omega
  mem_iff a := by
    simp only [Set.mem_union, h.mem_iff, mem_points, List.mem_cons, exists_eq_or_imp]
    exact or_comm

/-- A covered set may be written differently. -/
lemma Covers.congr {T : Set ℕ} (h : Covers l S) (hST : ∀ a, a ∈ S ↔ a ∈ T) : Covers l T :=
  ⟨h.nonempty, h.apart, fun a => (hST a).symm.trans (h.mem_iff a)⟩

/-- Segments with the same ends cover the same points. -/
lemma Covers.replace (h : Covers (e :: l) S) (hlo : lo f = lo e) (hhi : hi f = hi e) :
    Covers (f :: l) S := by
  have hpoi : ∀ a, Contains f a ↔ Contains e a := by
    intro a
    simp only [Contains, hlo, hhi]
  have hne := h.nonempty e List.mem_cons_self
  refine (h.tail.cons (e := f) (by omega) ?_).congr fun a => ?_
  · rintro a ⟨-, ha⟩ hf
    exact ha ((hpoi a).mp hf)
  · simp only [Set.mem_union, Set.mem_sdiff, mem_points, hpoi]
    by_cases ha : Contains e a
    · simp only [ha, not_true_eq_false, and_false, or_true, true_iff]
      exact (h.mem_iff a).mpr ⟨e, List.mem_cons_self, ha⟩
    · simp only [ha, not_false_eq_true, and_true, or_false]

/-- A segment that touches no equally labelled one is added. -/
lemma Separated.cons (h : Separated l) (hne : lo e ≤ hi e)
    (hl : ∀ f ∈ l, hi f + 1 = lo e → label f ≠ label e)
    (hr : ∀ f ∈ l, hi e + 1 = lo f → label e ≠ label f) : Separated (e :: l) := by
  intro f hf g hg htou
  rcases List.mem_cons.mp hf with rfl | hf' <;> rcases List.mem_cons.mp hg with rfl | hg'
  · omega
  · exact hr g hg' htou
  · exact hl f hf' htou
  · exact h f hf' g hg' htou

lemma Separated.replace (h : Separated (e :: l)) (hlo : lo f = lo e) (hhi : hi f = hi e)
    (hlab : label f = label e) (hne : lo e ≤ hi e) : Separated (f :: l) := by
  refine h.tail.cons (by omega) (fun g hg htou => ?_) fun g hg htou => ?_
  · rw [hlab]
    exact h g (List.mem_cons_of_mem _ hg) e List.mem_cons_self (by omega)
  · rw [hlab]
    exact h e List.mem_cons_self g (List.mem_cons_of_mem _ hg) (by omega)

/-- The points of a segment of the cover are covered. -/
lemma Covers.mem (h : Covers l S) (he : e ∈ l) {a : ℕ} (ha : Contains e a) : a ∈ S :=
  (h.mem_iff a).mpr ⟨e, he, ha⟩

/-- Two different members of a cover do not meet. -/
lemma Covers.apart_of_cons (h : Covers (e :: l) S) (hf : f ∈ l) : Apart e f :=
  (List.pairwise_cons.mp h.apart).1 f hf

end Segment
