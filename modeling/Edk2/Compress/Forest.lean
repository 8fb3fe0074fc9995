import Mathlib.Data.Finset.Interval
import Mathlib.Order.Interval.Finset.Nat
import Edk2.Compress.Model
import Edk2.Lib.FullTree

/-!
# The heap

`DownHeap` moves the entries of the heap, but neither loses one nor adds one.
-/

namespace Edk2.EfiCompress

open Function (update)

variable {mFreq mHeap mHeap' : ℕ → ℕ} {size fuel n i j k v : ℕ}

/-- The entries of a heap. -/
def entries (mHeap : ℕ → ℕ) (size : ℕ) : Multiset ℕ := (Finset.Icc 1 size).val.map mHeap

@[simp] lemma card_entries : (entries mHeap size).card = size := by
  simp [entries]

lemma entries_congr (h : ∀ i, 1 ≤ i → i ≤ size → mHeap i = mHeap' i) :
    entries mHeap size = entries mHeap' size := by
  apply Multiset.map_congr rfl
  grind

lemma entries_succ : entries mHeap (size + 1) = mHeap (size + 1) ::ₘ entries mHeap size := by
  have hmem : size + 1 ∉ Finset.Icc 1 size := by simp
  have hins : Finset.Icc 1 (size + 1) = insert (size + 1) (Finset.Icc 1 size) := by
    ext i
    simp only [Finset.mem_insert, Finset.mem_Icc]
    omega
  unfold entries
  rw [hins, Finset.insert_val_of_notMem hmem, Multiset.map_cons]

lemma entries_push : entries (update mHeap (size + 1) v) (size + 1) = v ::ₘ entries mHeap size := by
  grind [entries_succ, Function.update_self, entries_congr, Function.update_of_ne]

lemma entries_update (hi : 1 ≤ i) (hsize : i ≤ size) :
    mHeap i ::ₘ entries (update mHeap i v) size = v ::ₘ entries mHeap size := by
  have hmem : i ∈ Finset.Icc 1 size := Finset.mem_Icc.mpr ⟨hi, hsize⟩
  have hspl : (Finset.Icc 1 size).val = i ::ₘ ((Finset.Icc 1 size).erase i).val := by
    grind [Finset.insert_val_of_notMem, Finset.insert_erase]
  grind [Multiset.map_cons, Function.update_self, Multiset.cons_swap, entries, Multiset.map_congr,
    Function.update_of_ne]

lemma mem_entries (hi : 1 ≤ i) (hsize : i ≤ size) : mHeap i ∈ entries mHeap size :=
  Multiset.mem_map_of_mem _ (Finset.mem_Icc.mpr ⟨hi, hsize⟩)

lemma entries_hole (hi : 1 ≤ i) (hisi : i ≤ size) (hj : 1 ≤ j) (hjsi : j ≤ size)
    (hne : j ≠ i) : entries (update (update mHeap i (mHeap j)) j k) size =
      entries (update mHeap i k) size := by
  have hfst := @entries_update mHeap size i (mHeap j) hi hisi
  have hsec := @entries_update (update mHeap i (mHeap j)) size j k hj hjsi
  have hdir := @entries_update mHeap size i k hi hisi
  rw [Function.update_of_ne hne] at hsec
  have hall : mHeap i ::ₘ mHeap j ::ₘ entries (update (update mHeap i (mHeap j)) j k) size =
      mHeap i ::ₘ mHeap j ::ₘ entries (update mHeap i k) size := by
    rw [hsec, Multiset.cons_swap, hfst, Multiset.cons_swap (mHeap i), hdir, Multiset.cons_swap]
  grind [Multiset.cons_inj_right]

lemma downHeapFrom_entries (hi : 1 ≤ i) (hsize : i ≤ size) (hfuel : size < i + fuel) :
    ∃ mHeap', downHeapFrom mFreq size k fuel mHeap i = some mHeap' ∧
      entries mHeap' size = entries (update mHeap i k) size := by
  induction fuel generalizing mHeap i with
  | zero => omega
  | succ fuel ih =>
    unfold downHeapFrom
    by_cases hchi : 2 * i ≤ size
    · rw [if_pos hchi]
      -- the child that is compared
      obtain ⟨j, hj, hge, hle⟩ : ∃ j, (if 2 * i < size ∧ mFreq (mHeap (2 * i)) >
          mFreq (mHeap (2 * i + 1)) then 2 * i + 1 else 2 * i) = j ∧ 2 * i ≤ j ∧ j ≤ size := by
        refine ⟨_, rfl, ?_, ?_⟩ <;> split_ifs <;> omega
      simp only [hj]
      by_cases hstop : mFreq k ≤ mFreq (mHeap j)
      · rw [if_pos hstop]
        exact ⟨_, rfl, rfl⟩
      · rw [if_neg hstop]
        obtain ⟨mHeap', hrun, hent⟩ :=
          @ih (update mHeap i (mHeap j)) j (by omega) hle (by omega)
        grind [entries_hole]
    · rw [if_neg hchi]
      exact ⟨_, rfl, rfl⟩

lemma downHeap_entries (hi : 1 ≤ i) (hsize : i ≤ size) : ∃ mHeap',
    downHeap mFreq size mHeap i = some mHeap' ∧ entries mHeap' size = entries mHeap size := by
  obtain ⟨mHeap', hrun, hent⟩ := @downHeapFrom_entries mFreq mHeap size (size + 1) i (mHeap i)
    hi hsize (by omega)
  refine ⟨mHeap', hrun, ?_⟩
  rw [hent, Function.update_eq_self]

lemma heapify_entries (h : n ≤ size) : ∃ mHeap', heapify mFreq size n mHeap = some mHeap' ∧
    entries mHeap' size = entries mHeap size := by
  induction n generalizing mHeap with
  | zero => exact ⟨mHeap, rfl, rfl⟩
  | succ n ih =>
    obtain ⟨mHeap₁, hdown, hent₁⟩ :=
      @downHeap_entries mFreq mHeap size (n + 1) (by omega) h
    obtain ⟨mHeap₂, hrun, hent₂⟩ := @ih mHeap₁ (by omega)
    grind [Option.bind_eq_bind, heapify]

/-- The symbols that occur. -/
def occurring (mFreq : ℕ → ℕ) (n : ℕ) : Finset ℕ := (Finset.range n).filter fun i => mFreq i ≠ 0

lemma occurring_succ : occurring mFreq (n + 1) =
    if mFreq n ≠ 0 then insert n (occurring mFreq n) else occurring mFreq n := by
  unfold occurring
  rw [Finset.range_add_one, Finset.filter_insert]

lemma collect_entries : (collect mFreq n (mHeap, 0)).2 = (occurring mFreq n).card ∧
    entries (collect mFreq n (mHeap, 0)).1 (collect mFreq n (mHeap, 0)).2 =
      (occurring mFreq n).val := by
  induction n with
  | zero => exact ⟨rfl, rfl⟩
  | succ n ih =>
    grind [occurring, occurring_succ, collect, Finset.card_insert_of_notMem,
      Finset.insert_val_of_notMem, entries_push]

end Edk2.EfiCompress

/-!
## The trees in the heap

The entries of the heap are the roots of full binary trees. Joining takes two roots out of the heap and
puts their parent into it, and every symbol is sorted when it leaves the heap.
-/

namespace Edk2.EfiCompress

open Function (update)
open FullTree

variable {n i j total size fuel : ℕ} {mLeft mRight mLeft' mRight' : ℕ → ℕ} {t : Shape}
  {s s' : TreeState} {symbols : Multiset ℕ}

/-- The node `i` is the root of a tree of the given shape. -/
inductive Grows (mLeft mRight : ℕ → ℕ) (n : ℕ) : ℕ → Shape → Prop
  | leaf {i : ℕ} : i < n → Grows mLeft mRight n i .leaf
  | node {i : ℕ} {l r : Shape} : n ≤ i → mLeft i < i → mRight i < i →
      Grows mLeft mRight n (mLeft i) l → Grows mLeft mRight n (mRight i) r →
      Grows mLeft mRight n i (.node l r)

lemma Grows.congr (h : Grows mLeft mRight n i t)
    (hsame : ∀ j ≤ i, mLeft' j = mLeft j ∧ mRight' j = mRight j) :
    Grows mLeft' mRight' n i t := by
  induction h with
  | leaf hi => exact .leaf hi
  | @node i _ _ hi hl hr _ _ ihl ihr =>
    obtain ⟨hleft, hrig⟩ := hsame i le_rfl
    refine .node hi (by omega) (by omega) ?_ ?_
    · rw [hleft]
      exact ihl fun j hj => hsame j (by omega)
    · rw [hrig]
      exact ihr fun j hj => hsame j (by omega)

/-- The symbols that were sorted. -/
def TreeState.order (s : TreeState) : Multiset ℕ := (Multiset.range s.mSortPtr).map s.sorted

@[simp] lemma sort_mFreq : (s.sort n i).mFreq = s.mFreq := by unfold TreeState.sort; split_ifs <;> rfl

@[simp] lemma sort_mHeap : (s.sort n i).mHeap = s.mHeap := by unfold TreeState.sort; split_ifs <;> rfl

@[simp] lemma sort_mHeapSize : (s.sort n i).mHeapSize = s.mHeapSize := by
  unfold TreeState.sort
  split_ifs <;> rfl

@[simp] lemma sort_mLeft : (s.sort n i).mLeft = s.mLeft := by unfold TreeState.sort; split_ifs <;> rfl

@[simp] lemma sort_mRight : (s.sort n i).mRight = s.mRight := by
  unfold TreeState.sort
  split_ifs <;> rfl

@[simp] lemma sort_avail : (s.sort n i).avail = s.avail := by unfold TreeState.sort; split_ifs <;> rfl

lemma sort_order (rest : Multiset ℕ) : (s.sort n i).order + rest.filter (· < n) =
    s.order + (i ::ₘ rest).filter (· < n) := by
  unfold TreeState.sort
  split_ifs with hi
  · have hear : (Multiset.range s.mSortPtr).map (update s.sorted s.mSortPtr i) =
        (Multiset.range s.mSortPtr).map s.sorted := by
      apply Multiset.map_congr rfl
      intro j hj
      exact Function.update_of_ne (Nat.ne_of_lt (Multiset.mem_range.mp hj)) _ _
    rw [@Multiset.filter_cons_of_pos _ (· < n) _ i rest hi, Multiset.add_cons, ← Multiset.cons_add]
    congr 1
    change (Multiset.range (s.mSortPtr + 1)).map (update s.sorted s.mSortPtr i) = _
    rw [Multiset.range_succ, Multiset.map_cons, Function.update_self, hear]
    rfl
  · rw [@Multiset.filter_cons_of_neg _ (· < n) _ i rest hi]

/-- The entries of the heap are roots of trees, and the symbols are sorted or in the heap. -/
structure Forest (n total : ℕ) (symbols : Multiset ℕ) (s : TreeState) : Prop where
  avail : n ≤ s.avail
  trees : ∃ roots : Multiset (ℕ × Shape), entries s.mHeap s.mHeapSize = roots.map Prod.fst ∧
    (∀ p ∈ roots, p.1 < s.avail ∧ Grows s.mLeft s.mRight n p.1 p.2) ∧
      (roots.map fun p => p.2.leaves).sum = total
  sorted : s.order + (entries s.mHeap s.mHeapSize).filter (· < n) = symbols

lemma join_spec (hsize : 2 ≤ s.mHeapSize) : ∃ s' i j rest, s.join n = some s' ∧
    entries s.mHeap s.mHeapSize = i ::ₘ j ::ₘ rest ∧
      s'.mHeapSize = s.mHeapSize - 1 ∧ s'.avail = s.avail + 1 ∧
        entries s'.mHeap s'.mHeapSize = s.avail ::ₘ rest ∧
          s'.mLeft = update s.mLeft s.avail i ∧ s'.mRight = update s.mRight s.avail j ∧
            s'.order + rest.filter (· < n) =
              s.order + (entries s.mHeap s.mHeapSize).filter (· < n) := by
  obtain ⟨size, hsiz'⟩ : ∃ size, s.mHeapSize = size + 1 := ⟨s.mHeapSize - 1, by omega⟩
  -- the first root leaves the heap
  have hfst : s.mHeap 1 ::ₘ entries (update s.mHeap 1 (s.mHeap (size + 1))) size =
      entries s.mHeap (size + 1) := by
    rw [entries_update le_rfl (by omega), entries_succ]
  obtain ⟨heap₁, hdow₁, hent₁⟩ :=
    @downHeap_entries s.mFreq (update s.mHeap 1 (s.mHeap (size + 1))) size 1 le_rfl (by omega)
  -- the second one is replaced by the parent
  obtain ⟨rest, hrest⟩ := Multiset.exists_cons_of_mem (@mem_entries heap₁ size 1 le_rfl (by omega))
  obtain ⟨heap₂, hdow₂, hent₂⟩ := @downHeap_entries
    (update s.mFreq s.avail ((s.mFreq (s.mHeap 1) + s.mFreq (heap₁ 1)) % 2 ^ 16))
    (update heap₁ 1 s.avail) size 1 le_rfl (by omega)
  have hsec : entries heap₂ size = s.avail ::ₘ rest := by
    have hcons := @entries_update heap₁ size 1 s.avail le_rfl (by omega)
    grind [Multiset.cons_swap, Multiset.cons_inj_right]
  have hall : entries s.mHeap (size + 1) = s.mHeap 1 ::ₘ heap₁ 1 ::ₘ rest := by
    rw [← hfst, ← hent₁, hrest]
  have hjoin : s.join n = some { (s.sort n (s.mHeap 1)).sort n (heap₁ 1) with
      mFreq := update s.mFreq s.avail ((s.mFreq (s.mHeap 1) + s.mFreq (heap₁ 1)) % 2 ^ 16)
      mHeap := heap₂
      mHeapSize := size
      mLeft := update s.mLeft s.avail (s.mHeap 1)
      mRight := update s.mRight s.avail (heap₁ 1)
      avail := s.avail + 1 } := by
    unfold TreeState.join
    simp only [sort_mFreq, sort_mHeapSize, sort_mHeap, sort_avail, sort_mLeft, sort_mRight, hsiz',
      Nat.add_sub_cancel, hdow₁, hdow₂, Option.bind_eq_bind, Option.bind_some]
    rfl
  refine ⟨_, s.mHeap 1, heap₁ 1, rest, hjoin, ?_, ?_, rfl, hsec, rfl, rfl, ?_⟩
  · rw [hsiz', hall]
  · rw [hsiz', Nat.add_sub_cancel]
  · change ((s.sort n (s.mHeap 1)).sort n (heap₁ 1)).order + _ = _
    rw [sort_order, sort_order, hsiz', hall]

lemma Forest.step (h : Forest n total symbols s) (hsize : 2 ≤ s.mHeapSize) :
    ∃ s', s.join n = some s' ∧ Forest n total symbols s' ∧ s'.mHeapSize = s.mHeapSize - 1 ∧
      n < s'.avail ∧ s'.avail - 1 ∈ entries s'.mHeap s'.mHeapSize := by
  obtain ⟨s', i, j, rest, hjoin, hall, hsiz', hava', hent, hleft, hrigh, hord⟩ :=
    @join_spec n s hsize
  have hava := h.avail
  obtain ⟨roots, hroo, hgro, hsum⟩ := h.trees
  -- the trees of the two roots
  obtain ⟨⟨i', l⟩, hl, rfl⟩ : ∃ p ∈ roots, p.1 = i := by
    simp [← Multiset.mem_map, ← hroo, hall]
  obtain ⟨roots₁, rfl⟩ := Multiset.exists_cons_of_mem hl
  rw [hall, Multiset.map_cons, Multiset.cons_inj_right] at hroo
  obtain ⟨⟨j', r⟩, hr, rfl⟩ : ∃ p ∈ roots₁, p.1 = j := by
    simp [← Multiset.mem_map, ← hroo]
  obtain ⟨roots₂, rfl⟩ := Multiset.exists_cons_of_mem hr
  rw [Multiset.map_cons, Multiset.cons_inj_right] at hroo
  have hsame : ∀ q < s.avail, s'.mLeft q = s.mLeft q ∧ s'.mRight q = s.mRight q := by
    intro q hq
    rw [hleft, hrigh]
    grind
  have hkeep : ∀ p ∈ ((i', l) ::ₘ (j', r) ::ₘ roots₂), p.1 < s.avail ∧
      Grows s'.mLeft s'.mRight n p.1 p.2 := by
    intro p hp
    obtain ⟨hlt, hgrow⟩ := hgro p hp
    exact ⟨hlt, hgrow.congr fun q hq => hsame q (by omega)⟩
  obtain ⟨hlti, hgrowi⟩ := hkeep (i', l) (by simp)
  obtain ⟨hltj, hgrowj⟩ := hkeep (j', r) (by simp)
  have hlef : s'.mLeft s.avail = i' := by rw [hleft, Function.update_self]
  have hrig : s'.mRight s.avail = j' := by rw [hrigh, Function.update_self]
  refine ⟨s', hjoin, ⟨by omega, ⟨(s.avail, .node l r) ::ₘ roots₂, ?_, ?_, ?_⟩, ?_⟩, hsiz',
    by omega, ?_⟩
  · rw [hent, Multiset.map_cons, hroo]
  · intro p hp
    rcases Multiset.mem_cons.mp hp with rfl | hp
    · refine ⟨by rw [hava']; exact Nat.lt_succ_self _, .node hava ?_ ?_ ?_ ?_⟩
      · rwa [hlef]
      · rwa [hrig]
      · rwa [hlef]
      · rwa [hrig]
    grind
  · grind [Multiset.map_cons, Multiset.sum_cons, Shape.leaves]
  · rw [hent, Multiset.filter_cons_of_neg _ (by omega), hord]
    exact h.sorted
  simp [hent, hava']

lemma Forest.run (h : Forest n total symbols s) (hsize : 2 ≤ s.mHeapSize)
    (hfuel : s.mHeapSize ≤ fuel) : ∃ s', s.joinAll n fuel = some s' ∧
      Forest n total symbols s' ∧ s'.mHeapSize = 1 ∧ n < s'.avail ∧
        s'.avail - 1 ∈ entries s'.mHeap s'.mHeapSize := by
  induction fuel generalizing s with
  | zero => omega
  | succ fuel ih =>
    obtain ⟨s₁, hjoin, hfor, hsiz₁, hava, hroot⟩ := h.step hsize
    grind [Option.bind_eq_bind, TreeState.joinAll]

lemma Forest.single (h : Forest n total symbols s) (hsize : s.mHeapSize = 1) (hava : n < s.avail)
    (hroot : s.avail - 1 ∈ entries s.mHeap s.mHeapSize) :
    (∃ t, Grows s.mLeft s.mRight n (s.avail - 1) t ∧ t.leaves = total) ∧ s.order = symbols := by
  have hent : entries s.mHeap s.mHeapSize = {s.avail - 1} := by
    obtain ⟨a, ha⟩ := Multiset.card_eq_one.mp (by rw [card_entries, hsize] :
      (entries s.mHeap s.mHeapSize).card = 1)
    rw [ha, Multiset.mem_singleton] at hroot
    rw [ha, hroot]
  obtain ⟨roots, hroo, hgro, hsum⟩ := h.trees
  obtain ⟨⟨root, t⟩, rfl⟩ := Multiset.card_eq_one.mp (by
    rw [← Multiset.card_map Prod.fst, ← hroo, hent, Multiset.card_singleton] : roots.card = 1)
  rw [hent, Multiset.map_singleton, Multiset.singleton_inj] at hroo
  have hroo : s.avail - 1 = root := hroo
  refine ⟨⟨t, ?_, ?_⟩, ?_⟩
  · rw [hroo]
    exact (hgro _ (Multiset.mem_singleton_self _)).2
  · simpa using hsum
  · have hsor := h.sorted
    rw [hent, Multiset.filter_singleton, if_neg (by omega)] at hsor
    simpa using hsor

end Edk2.EfiCompress
