import Mathlib.Algebra.Order.Group.Nat
import Mathlib.Algebra.Ring.Int.Defs
import Mathlib.Algebra.Ring.Nat
import Mathlib.Data.List.Nodup

/-!
# Enumerating by going on behind a key

Some positions show a key. An enumeration goes from a position to the next one that shows a key; it
is then taken up behind the position where this key is at home, which need not be the one where it
was met. If every key that is met on the way leads to the next home, each key is met once.
-/

namespace Resume

variable {κ : Type*} {keyAt : ℕ → Option κ} {home : κ → ℕ} {m p q q' : ℕ} {j k : κ} {keys : List κ}

/-- The next position that shows a key. -/
structure Next (keyAt : ℕ → Option κ) (p q : ℕ) : Prop where
  le : p ≤ q
  shown : keyAt q ≠ none
  first : ∀ i, p ≤ i → i < q → keyAt i = none

lemma Next.unique (h : Next keyAt p q) (h' : Next keyAt p q') : q = q' := by
  rcases Nat.lt_trichotomy q q' with hlt | heq | hlt
  · exact absurd (h'.first q h.le hlt) h.shown
  · exact heq
  · exact absurd (h.first q' h'.le hlt) h'.shown

/-- Where a key is shown at all, it is shown at home. -/
structure Homes (keyAt : ℕ → Option κ) (home : κ → ℕ) (m : ℕ) : Prop where
  at_home : ∀ p k, keyAt p = some k → keyAt (home k) = some k
  bound : ∀ p, m ≤ p → keyAt p = none

/-- The keys that an enumeration from a position meets. -/
inductive Visits (keyAt : ℕ → Option κ) (home : κ → ℕ) : ℕ → List κ → Prop
  | done {p : ℕ} (h : ∀ i, p ≤ i → keyAt i = none) : Visits keyAt home p []
  | next {p q : ℕ} {k : κ} {keys : List κ} (h : Next keyAt p q) (hk : keyAt q = some k)
      (rest : Visits keyAt home (home k + 1) keys) : Visits keyAt home p (k :: keys)

/-- The next key is the one whose home comes next. -/
def Leads (keyAt : ℕ → Option κ) (home : κ → ℕ) (p : ℕ) : Prop :=
  ∀ q j, Next keyAt p q → keyAt q = some j →
    p ≤ home j ∧ ∀ k, keyAt (home k) = some k → p ≤ home k → home j ≤ home k

lemma exists_next (h : keyAt q ≠ none) (hle : p ≤ q) : ∃ i, Next keyAt p i ∧ i ≤ q := by
  induction q using Nat.strong_induction_on with
  | _ q ih =>
    by_cases hfst : ∀ i, p ≤ i → i < q → keyAt i = none
    · exact ⟨q, ⟨hle, h, hfst⟩, le_rfl⟩
    grind

/-- Keys that are shown at home only lead on. -/
lemma leads_of_home (h : ∀ q k, keyAt q = some k → home k = q) : Leads keyAt home p := by
  intro q j hnext hj
  rw [h q j hj]
  refine ⟨hnext.le, fun k hk hle => ?_⟩
  by_contra hlt
  rw [hnext.first (home k) hle (not_le.mp hlt)] at hk
  cases hk

/-- If each key leads to the next home, all keys at home from the position on are met once. -/
lemma exists_visits (hhom : Homes keyAt home m) (hp : Leads keyAt home p)
    (hall : ∀ k, keyAt (home k) = some k → p ≤ home k → Leads keyAt home (home k + 1)) :
    ∃ keys, Visits keyAt home p keys ∧ keys.Nodup ∧
      ∀ k, k ∈ keys ↔ keyAt (home k) = some k ∧ p ≤ home k := by
  obtain ⟨n, hn⟩ : ∃ n, m ≤ p + n := ⟨m, Nat.le_add_left m p⟩
  induction n using Nat.strong_induction_on generalizing p with
  | _ n ih =>
    by_cases hnone : ∀ i, p ≤ i → keyAt i = none
    · refine ⟨[], .done hnone, List.nodup_nil, fun k => ?_⟩
      grind
    · push Not at hnone
      obtain ⟨i, hi, hne⟩ := hnone
      obtain ⟨q, hnext, -⟩ := exists_next hne hi
      obtain ⟨j, hj⟩ := Option.ne_none_iff_exists'.mp hnext.shown
      obtain ⟨hle, hlea⟩ := hp q j hnext hj
      have hhome := hhom.at_home q j hj
      have hlt : home j < m := by
        by_contra hge
        rw [hhom.bound _ (not_lt.mp hge)] at hhome
        cases hhome
      -- the rest of the way starts behind the home of the key
      obtain ⟨keys, hkeys, hnod, hmem⟩ := ih (m - (home j + 1)) (by omega) (hall j hhome hle)
        (fun k hk hlt' => hall k hk (by omega)) (by omega)
      refine ⟨j :: keys, .next hnext hj hkeys, List.nodup_cons.mpr ⟨?_, hnod⟩, fun k => ?_⟩
      · grind
      grind

section Ahead

variable (hahead : ∀ q k, keyAt q = some k → q ≤ home k)

include hahead

lemma Visits.le (h : Visits keyAt home p keys) (hk : k ∈ keys) : p ≤ home k := by
  induction h with
  | done _ => exact absurd hk List.not_mem_nil
  | next hnext hj _ ih =>
    have hle := hahead _ _ hj
    rcases List.mem_cons.mp hk with rfl | hk
    · exact hnext.le.trans hle
    · have hlt := ih hk
      have hle' := hnext.le
      omega

/-- The way goes on behind each key that is met. -/
lemma Visits.behind (h : Visits keyAt home p keys) (hk : k ∈ keys) :
    ∃ post, Visits keyAt home (home k + 1) post ∧ ∀ j ∈ keys, home k < home j → j ∈ post := by
  induction h with
  | done _ => exact absurd hk List.not_mem_nil
  | @next p q i keys hnext hi rest ih =>
    rcases List.mem_cons.mp hk with rfl | hrest
    · grind
    · obtain ⟨post, hpost, hmem⟩ := ih hrest
      refine ⟨post, hpost, fun j hj hlt => ?_⟩
      rcases List.mem_cons.mp hj with rfl | hj
      · have hlt' := rest.le hahead hrest
        omega
      · exact hmem j hj hlt

/-- An enumeration that meets all keys from here on has been led to the next home. -/
lemma Visits.leads (h : Visits keyAt home p keys)
    (hall : ∀ k, keyAt (home k) = some k → p ≤ home k → k ∈ keys) : Leads keyAt home p := by
  intro q j hnext hj
  refine ⟨hnext.le.trans (hahead q j hj), fun k hk hle => ?_⟩
  have hin := hall k hk hle
  cases h with
  | done hnone => exact absurd (hnone q hnext.le) hnext.shown
  | next hnex' hi rest =>
    obtain rfl := hnext.unique hnex'
    obtain rfl := Option.some.inj (hj.symm.trans hi)
    rcases List.mem_cons.mp hin with rfl | hin
    · exact le_rfl
    · have hlt := rest.le hahead hin
      omega

/-- If all keys are met, each of them is in front of its home and leads to the next one. -/
lemma Visits.leads_all (h : Visits keyAt home p keys)
    (hall : ∀ k, keyAt (home k) = some k → k ∈ keys) :
    ∀ k, keyAt (home k) = some k → p ≤ home k ∧ Leads keyAt home (home k + 1) := by
  intro k hk
  refine ⟨h.le hahead (hall k hk), ?_⟩
  obtain ⟨post, hpost, hmem⟩ := h.behind hahead (hall k hk)
  exact hpost.leads hahead fun j hj hlt => hmem j (hall j hj) hlt

end Ahead

/-- The first key from a position of a list on. -/
lemma findSome?_drop {α : Type*} {f : α → Option κ} {l : List α} :
    (l.drop p).findSome? f = some k ↔
      ∃ q, Next (fun i => l[i]?.bind f) p q ∧ l[q]?.bind f = some k := by
  have hsome : ∀ k, (l.drop p).findSome? f = some k →
      ∃ q, Next (fun i => l[i]?.bind f) p q ∧ l[q]?.bind f = some k := by
    intro k h
    obtain ⟨front, a, back, heq, ha, hfro⟩ := List.findSome?_eq_some_iff.mp h
    have hget : ∀ i, l[p + i]? = (front ++ a :: back)[i]? := by
      intro i
      rw [← heq, List.getElem?_drop]
    have hat : l[p + front.length]?.bind f = some k := by
      grind
    refine ⟨p + front.length, ⟨Nat.le_add_right _ _, ?_, fun i hi hlt => ?_⟩, hat⟩
    · rw [hat]
      exact Option.some_ne_none k
    · obtain ⟨i, rfl⟩ := Nat.exists_eq_add_of_le hi
      have hlt : i < front.length := by omega
      rw [hget, List.getElem?_append_left hlt, List.getElem?_eq_getElem hlt]
      exact hfro _ (List.getElem_mem hlt)
  refine ⟨hsome k, ?_⟩
  rintro ⟨q, hnext, hq⟩
  cases h : (l.drop p).findSome? f with
  | none =>
    obtain ⟨i, rfl⟩ := Nat.exists_eq_add_of_le hnext.le
    obtain ⟨a, ha, hfa⟩ := Option.bind_eq_some_iff.mp hq
    rw [← List.getElem?_drop] at ha
    grind
  | some k' =>
    obtain ⟨q', hnex', hq'⟩ := hsome k' h
    obtain rfl := hnext.unique hnex'
    exact hq'.symm.trans hq

lemma findSome?_drop_eq_none {α : Type*} {f : α → Option κ} {l : List α} :
    (l.drop p).findSome? f = none ↔ ∀ i, p ≤ i → l[i]?.bind f = none := by
  rw [List.findSome?_eq_none_iff]
  constructor
  · intro h i hi
    obtain ⟨i, rfl⟩ := Nat.exists_eq_add_of_le hi
    rw [← List.getElem?_drop]
    grind
  · intro h a ha
    obtain ⟨i, hi⟩ := List.mem_iff_getElem?.mp ha
    grind

end Resume
