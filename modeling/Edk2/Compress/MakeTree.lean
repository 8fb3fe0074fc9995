import Mathlib.Algebra.BigOperators.Intervals
import Mathlib.Algebra.BigOperators.Ring.Finset
import Mathlib.Algebra.Order.BigOperators.Group.Finset
import Mathlib.Tactic.Ring
import Edk2.Compress.Forest

/-!
# The lengths of the codes

Leaves that lie too deep are counted at the level 16, where they weigh too much. Each round of the loop
in `MakeLen` makes the leaves weigh one unit less: it takes one of them away from the level 16 and gives
it to the side of a leaf further up. It comes to its end when they weigh as much as the root.
-/

namespace Edk2.EfiCompress

open Function (update)
open FullTree

variable {n i j k m e fuel depth ptr : ℕ} {mLeft mRight cnt sorted len : ℕ → ℕ} {t : Shape}
  {l l' : List ℕ}

lemma countLen_spec (h : Grows mLeft mRight n i t) (hfuel : i < fuel) :
    ∃ cnt', countLen n mLeft mRight fuel depth i cnt = some cnt' ∧
      ∀ j, cnt j < 2 ^ 16 → cnt' j = (cnt j + (t.levels codeBit depth).count j) % 2 ^ 16 := by
  induction h generalizing fuel depth cnt with
  | @leaf i hi =>
    obtain ⟨fuel, rfl⟩ : ∃ f, fuel = f + 1 := ⟨fuel - 1, by omega⟩
    have hlev : (if depth < 16 then depth else 16) = min depth codeBit := by
      change _ = min depth 16
      split_ifs <;> omega
    unfold countLen
    simp only [hi, if_true, hlev]
    refine ⟨_, rfl, fun j hj => ?_⟩
    rw [Shape.levels, List.count_singleton]
    grind
  | @node i l r hi hl hr _ _ ihl ihr =>
    obtain ⟨fuel, rfl⟩ : ∃ f, fuel = f + 1 := ⟨fuel - 1, by omega⟩
    obtain ⟨cnt₁, hrun₁, hcnt₁⟩ := @ihl fuel (depth + 1) cnt (by omega)
    obtain ⟨cnt₂, hrun₂, hcnt₂⟩ := @ihr fuel (depth + 1) cnt₁ (by omega)
    grind [Option.bind_eq_bind, Shape.levels, countLen, Nat.mod_lt]

/-- What the counted leaves weigh, if a leaf at level `i` weighs `w i`. -/
def weighCounts (w cnt : ℕ → ℕ) (n : ℕ) : ℕ := ∑ i ∈ Finset.Icc 1 n, cnt i * w i

/-- The weight of a leaf. -/
def unit (i : ℕ) : ℕ := 2 ^ (codeBit - i)

lemma weighCounts_succ (w cnt : ℕ → ℕ) (n : ℕ) :
    weighCounts w cnt (n + 1) = weighCounts w cnt n + cnt (n + 1) * w (n + 1) :=
  Finset.sum_Icc_succ_top (by omega) _

lemma weighCounts_congr {w cnt cnt' : ℕ → ℕ} (h : ∀ i, 1 ≤ i → i ≤ n → cnt i = cnt' i) :
    weighCounts w cnt n = weighCounts w cnt' n := by
  apply Finset.sum_congr rfl
  grind

lemma weighCounts_update (w cnt : ℕ → ℕ) {v : ℕ} (hi : 1 ≤ i) (hin : i ≤ n) :
    weighCounts w (update cnt i v) n + cnt i * w i = weighCounts w cnt n + v * w i := by
  have hmem : i ∈ Finset.Icc 1 n := Finset.mem_Icc.mpr ⟨hi, hin⟩
  have hrest : ∑ j ∈ (Finset.Icc 1 n).erase i, update cnt i v j * w j =
      ∑ j ∈ (Finset.Icc 1 n).erase i, cnt j * w j := by
    apply Finset.sum_congr rfl
    intro j hj
    rw [Function.update_of_ne (Finset.ne_of_mem_erase hj)]
  unfold weighCounts
  rw [← Finset.add_sum_erase _ _ hmem, ← Finset.add_sum_erase _ (fun j => cnt j * w j) hmem, hrest,
    Function.update_self]
  omega

lemma le_weighCounts (cnt : ℕ → ℕ) (hi : 1 ≤ i) (hin : i ≤ n) :
    cnt i ≤ weighCounts (fun _ => 1) cnt n := by
  unfold weighCounts
  simp only [Nat.mul_one]
  exact Finset.single_le_sum (fun _ _ => Nat.zero_le _) (Finset.mem_Icc.mpr ⟨hi, hin⟩)

lemma weighCounts_count (w : ℕ → ℕ) (h : ∀ i ∈ l, 1 ≤ i ∧ i ≤ n) :
    weighCounts w (fun i => l.count i) n = (l.map w).sum := by
  induction l with
  | nil => simp [weighCounts]
  | cons a l ih =>
    have ha : a ∈ Finset.Icc 1 n := Finset.mem_Icc.mpr (h a List.mem_cons_self)
    have hspl : ∀ i, (a :: l).count i * w i = l.count i * w i + if a = i then w i else 0 := by
      grind
    unfold weighCounts at ih ⊢
    simp only [hspl]
    rw [Finset.sum_add_distrib, ih fun i hi => h i (List.mem_cons_of_mem _ hi), Finset.sum_ite_eq,
      if_pos ha, List.map_cons, List.sum_cons, Nat.add_comm]

lemma weigh_le (cnt : ℕ → ℕ) (n : ℕ) :
    weighCounts unit cnt n ≤ weighCounts (fun _ => 1) cnt n * 2 ^ 15 := by
  unfold weighCounts
  rw [Finset.sum_mul]
  apply Finset.sum_le_sum
  intro i hi
  have hge := (Finset.mem_Icc.mp hi).1
  rw [Nat.mul_one]
  exact Nat.mul_le_mul_left _ (Nat.pow_le_pow_right (by decide) (by
    change 16 - i ≤ 15
    omega))

lemma cumulate_eq (h : weighCounts (fun _ => 1) cnt n < 2 ^ 16) :
    cumulate cnt n = weighCounts unit cnt n := by
  induction n with
  | zero => rfl
  | succ n ih =>
    have hsucc := weighCounts_succ (fun _ => 1) cnt n
    have hle := weigh_le cnt (n + 1)
    have hunit := weighCounts_succ unit cnt n
    unfold cumulate
    rw [ih (by omega)]
    change (cnt (n + 1) * unit (n + 1) + _) % 2 ^ 32 = _
    rw [Nat.mod_eq_of_lt (by omega), hunit, Nat.add_comm]

lemma splitLeaf_spec (h : ∃ i, 1 ≤ i ∧ i ≤ n ∧ cnt i ≠ 0) : ∃ i, 1 ≤ i ∧ i ≤ n ∧ cnt i ≠ 0 ∧
    splitLeaf cnt n = update (update cnt i ((cnt i + 2 ^ 16 - 1) % 2 ^ 16)) (i + 1)
      ((cnt (i + 1) + 2) % 2 ^ 16) := by
  induction n with
  | zero =>
    obtain ⟨i, hi, hin, -⟩ := h
    omega
  | succ n ih =>
    unfold splitLeaf
    by_cases hn : cnt (n + 1) ≠ 0
    · grind
    · rw [if_neg hn]
      obtain ⟨i, hi, hin, hcnt⟩ := h
      have hne : i ≠ n + 1 := by
        rintro rfl
        exact hn hcnt
      obtain ⟨j, hj, hjn, hcntj, heq⟩ := ih ⟨i, hi, by omega, hcnt⟩
      exact ⟨j, hj, by omega, hcntj, heq⟩

/-- `m` leaves that weigh `e` units more than the root, and less than there are leaves at the last
level. -/
structure Excess (cnt : ℕ → ℕ) (m e : ℕ) : Prop where
  count : weighCounts (fun _ => 1) cnt codeBit = m
  weight : weighCounts unit cnt codeBit = 2 ^ 16 + e
  deep : e = 0 ∨ e < cnt codeBit

lemma Excess.step (h : Excess cnt m (e + 1)) (hm : m < 2 ^ 16) :
    Excess (splitLeaf (update cnt 16 ((cnt 16 + 2 ^ 16 - 1) % 2 ^ 16)) 15) m e := by
  have hdeep : e + 1 < cnt 16 := by
    rcases h.deep with hzero | hlt
    · cases hzero
    · exact hlt
  have hlast : cnt 16 ≤ m := h.count ▸ le_weighCounts cnt (by decide) (by decide)
  rw [show (cnt 16 + 2 ^ 16 - 1) % 2 ^ 16 = cnt 16 - 1 by omega]
  -- one leaf less at the last level
  have hcnt₁ := weighCounts_update (fun _ => 1) cnt (i := 16) (n := codeBit) (v := cnt 16 - 1)
    (by decide) (by decide)
  have hwei₁ := weighCounts_update unit cnt (i := 16) (n := codeBit) (v := cnt 16 - 1)
    (by decide) (by decide)
  rw [h.count] at hcnt₁
  rw [h.weight] at hwei₁
  have hlas₁ : update cnt 16 (cnt 16 - 1) 16 = cnt 16 - 1 := Function.update_self ..
  generalize update cnt 16 (cnt 16 - 1) = cnt₁ at hcnt₁ hwei₁ hlas₁ ⊢
  have hunit : unit 16 = 1 := rfl
  rw [hunit] at hwei₁
  -- there are leaves further up, since so few leaves weigh so much
  have hupp : ∃ i, 1 ≤ i ∧ i ≤ 15 ∧ cnt₁ i ≠ 0 := by
    by_contra hnone
    push Not at hnone
    have hzero : ∀ w, weighCounts w cnt₁ 15 = 0 := by
      intro w
      apply Finset.sum_eq_zero
      grind
    have hc : weighCounts (fun _ => 1) cnt₁ codeBit = _ := weighCounts_succ _ cnt₁ 15
    have hw : weighCounts unit cnt₁ codeBit = _ := weighCounts_succ _ cnt₁ 15
    rw [hzero] at hc hw
    rw [hunit] at hw
    omega
  obtain ⟨q, hq, hq15, hcnt, hspl⟩ := splitLeaf_spec hupp
  have hle₁ : cnt₁ q ≤ weighCounts (fun _ => 1) cnt₁ codeBit :=
    le_weighCounts cnt₁ hq (le_trans hq15 (by decide))
  have hpair : cnt₁ q + cnt₁ (q + 1) ≤ weighCounts (fun _ => 1) cnt₁ codeBit := by
    have hdrop := weighCounts_update (fun _ => 1) cnt₁ (i := q) (n := codeBit) (v := 0) hq
      (le_trans hq15 (by decide))
    have hoth := le_weighCounts (update cnt₁ q 0) (i := q + 1) (n := codeBit) (by omega)
      (Nat.succ_le_succ hq15)
    rw [Function.update_of_ne (by omega)] at hoth
    omega
  rw [hspl, show (cnt₁ q + 2 ^ 16 - 1) % 2 ^ 16 = cnt₁ q - 1 by omega,
    show (cnt₁ (q + 1) + 2) % 2 ^ 16 = cnt₁ (q + 1) + 2 by omega]
  -- one leaf becomes two leaves of half its weight
  have hpow : unit q = 2 * unit (q + 1) := by
    unfold unit
    rw [← Nat.pow_succ', show codeBit - q = codeBit - (q + 1) + 1 from by
      change 16 - q = 16 - (q + 1) + 1
      omega]
  have hcnt₂ := weighCounts_update (fun _ => 1) cnt₁ (i := q) (n := codeBit) (v := cnt₁ q - 1) hq
    (le_trans hq15 (by decide))
  have hwei₂ := weighCounts_update unit cnt₁ (i := q) (n := codeBit) (v := cnt₁ q - 1) hq
    (le_trans hq15 (by decide))
  have hcnt₃ := weighCounts_update (fun _ => 1) (update cnt₁ q (cnt₁ q - 1)) (i := q + 1)
    (n := codeBit) (v := cnt₁ (q + 1) + 2) (by omega) (Nat.succ_le_succ hq15)
  have hwei₃ := weighCounts_update unit (update cnt₁ q (cnt₁ q - 1)) (i := q + 1)
    (n := codeBit) (v := cnt₁ (q + 1) + 2) (by omega) (Nat.succ_le_succ hq15)
  rw [Function.update_of_ne (by omega)] at hcnt₃ hwei₃
  refine ⟨by omega, ?_, ?_⟩
  · obtain ⟨c, hc⟩ : ∃ c, cnt₁ q = c + 1 := ⟨cnt₁ q - 1, by omega⟩
    grind [Nat.add_sub_cancel, Nat.add_mul]
  grind

lemma Excess.run (h : Excess cnt m e) (hm : m < 2 ^ 16) (hfuel : e < fuel) :
    ∃ cnt', adjust fuel (2 ^ 16 + e) cnt = some cnt' ∧ Excess cnt' m 0 := by
  induction e generalizing fuel cnt with
  | zero =>
    obtain ⟨fuel, rfl⟩ : ∃ f, fuel = f + 1 := ⟨fuel - 1, by omega⟩
    exact ⟨cnt, if_pos rfl, h⟩
  | succ e ih =>
    obtain ⟨fuel, rfl⟩ : ∃ f, fuel = f + 1 := ⟨fuel - 1, by omega⟩
    have hlast : cnt 16 ≤ m := h.count ▸ le_weighCounts cnt (by decide) (by decide)
    have hdeep : e + 1 < cnt 16 := by
      rcases h.deep with hzero | hlt
      · cases hzero
      · exact hlt
    obtain ⟨cnt', hrun, hcnt'⟩ := @ih fuel _ (h.step hm) (by omega)
    grind [adjust]

end Edk2.EfiCompress

/-!
## The code lengths of a tree

The lengths that `MakeTree` hands out to the symbols that occur lie between 1 and 16, and codes of these
lengths fill up all strings of 16 bits.
-/

namespace Edk2.EfiCompress

open Function (update)
open FullTree

variable {n i k m ptr : ℕ} {cnt sorted len mFreq mLenCnt : ℕ → ℕ} {l l' : List ℕ} {a : Arrays}

/-- The lengths in the order in which they are handed out. -/
def levelList (cnt : ℕ → ℕ) : ℕ → List ℕ
  | 0 => []
  | i + 1 => List.replicate (cnt (i + 1)) (i + 1) ++ levelList cnt i

/-- The next symbols get these lengths. -/
def assignAll (sorted : ℕ → ℕ) : List ℕ → ℕ → (ℕ → ℕ) → (ℕ → ℕ)
  | [], _, len => len
  | i :: l, ptr, len => assignAll sorted l (ptr + 1) (update len (sorted ptr) i)

lemma assignAll_append : assignAll sorted (l ++ l') ptr len =
    assignAll sorted l' (ptr + l.length) (assignAll sorted l ptr len) := by
  induction l generalizing ptr len with
  | nil => rfl
  | cons i l ih =>
    grind [assignAll, List.length_cons]

lemma assignLevel_eq : assignLevel sorted i k ptr len =
    (ptr + k, assignAll sorted (List.replicate k i) ptr len) := by
  induction k generalizing ptr len with
  | zero => rfl
  | succ k ih =>
    rw [assignLevel, ih, List.replicate_succ, assignAll]
    congr 1
    omega

lemma assignLens_eq : assignLens sorted cnt n ptr len =
    assignAll sorted (levelList cnt n) ptr len := by
  induction n generalizing ptr len with
  | zero => rfl
  | succ n ih =>
    rw [assignLens, assignLevel_eq, ih, levelList, assignAll_append, List.length_replicate]

lemma levelList_bounds (h : i ∈ levelList cnt n) : 1 ≤ i ∧ i ≤ n := by
  induction n with
  | zero => cases h
  | succ n ih =>
    rcases List.mem_append.mp h with h | h
    · obtain rfl := List.eq_of_mem_replicate h
      omega
    · have hbou := ih h
      omega

lemma count_levelList (hpos : 1 ≤ i) (hle : i ≤ n) : (levelList cnt n).count i = cnt i := by
  induction n with
  | zero => omega
  | succ n ih =>
    rw [levelList, List.count_append, List.count_replicate]
    rcases Nat.lt_or_eq_of_le hle with hlt | rfl
    · rw [ih (Nat.le_of_lt_succ hlt), if_neg (by simp; omega), Nat.zero_add]
    · have hnot : n + 1 ∉ levelList cnt n := fun hmem => by
        have := (levelList_bounds hmem).2
        omega
      simp [List.count_eq_zero_of_not_mem hnot]

lemma sum_levelList (w cnt : ℕ → ℕ) (n : ℕ) :
    ((levelList cnt n).map w).sum = weighCounts w cnt n := by
  induction n with
  | zero => rfl
  | succ n ih =>
    rw [levelList, List.map_append, List.sum_append, ih, weighCounts_succ, List.map_replicate,
      List.sum_replicate, Nat.nsmul_eq_mul, Nat.add_comm]

lemma assignAll_of_notMem (h : ∀ j < l.length, sorted (ptr + j) ≠ i) :
    assignAll sorted l ptr len i = len i := by
  induction l generalizing ptr len with
  | nil => rfl
  | cons q l ih =>
    have hfst : i ≠ sorted ptr := (h 0 (Nat.succ_pos _)).symm
    rw [assignAll, ih, Function.update_of_ne hfst]
    intro j hj
    rw [Nat.add_assoc, Nat.add_comm 1]
    exact h (j + 1) (Nat.succ_lt_succ hj)

lemma map_assignAll (h : ∀ i j, i < j → j < ptr + l.length → ptr ≤ i → sorted i ≠ sorted j) :
    (List.range' ptr l.length).map (fun j => assignAll sorted l ptr len (sorted j)) = l := by
  induction l generalizing ptr len with
  | nil => rfl
  | cons q l ih =>
    rw [List.length_cons] at h ⊢
    rw [List.range'_succ, List.map_cons, assignAll]
    congr 1
    · grind [assignAll_of_notMem, Function.update_self]
    · exact ih fun i j hij hj hi => h i j hij (by omega) (by omega)

/-! ### The tree -/

lemma makeLen_spec {mLeft mRight : ℕ → ℕ} {t : Shape} {root : ℕ}
    (h : Grows mLeft mRight n root t) (hroot : n ≤ root) (hlea : t.leaves < 2 ^ 16) :
    ∃ cnt, makeLen n mLeft mRight sorted mLenCnt len root =
      some (cnt, assignAll sorted (levelList cnt 16) 0 len) ∧ Excess cnt t.leaves 0 := by
  obtain ⟨cnt, hcoun, hcnt⟩ := @countLen_spec n root (root + 1) 0 mLeft mRight
    (fun i => if i ≤ 16 then 0 else mLenCnt i) t h (Nat.lt_succ_self _)
  have hcnt : ∀ j, 1 ≤ j → j ≤ codeBit → cnt j = (t.levels codeBit 0).count j := by
    intro j _ hj
    have hj : j ≤ 16 := hj
    have hle := List.count_le_length (a := j) (l := t.levels codeBit 0)
    have hj' := hcnt j (by rw [if_pos hj]; decide)
    rw [if_pos hj, Nat.zero_add] at hj'
    grind [Shape.length_levels, Nat.mod_eq_of_lt]
  -- the root is no leaf
  have hlev : ∀ i ∈ t.levels codeBit 0, 1 ≤ i ∧ i ≤ codeBit := by
    intro i hi
    cases h with
    | leaf hlt => omega
    | node =>
      rw [Shape.levels, List.mem_append] at hi
      rcases hi with hi | hi <;> exact Shape.levels_bounds hi
  obtain ⟨e, he, hdeep⟩ := @Shape.weigh_levels codeBit 0 t (Nat.zero_le _)
  have hexc : Excess cnt t.leaves e := by
    refine ⟨?_, ?_, ?_⟩
    · rw [weighCounts_congr hcnt, weighCounts_count _ hlev]
      simp
    · rw [weighCounts_congr hcnt, weighCounts_count _ hlev]
      exact he
    · rwa [hcnt codeBit (by decide) le_rfl]
  obtain ⟨cnt', hadj, hcnt'⟩ := hexc.run hlea (show e < 2 ^ 16 + e + 1 by omega)
  have hcum : cumulate cnt 16 = 2 ^ 16 + e := by
    rw [cumulate_eq (by rw [hexc.count]; exact hlea)]
    exact hexc.weight
  grind [Option.bind_eq_bind, assignLens_eq, makeLen]

/-- The lengths of a complete code: those of the symbols that occur lie between 1 and 16, and the codes
fill up all strings of 16 bits. -/
structure CompleteLengths (n : ℕ) (mFreq len : ℕ → ℕ) : Prop where
  occurs : ∀ i < n, mFreq i ≠ 0 → 1 ≤ len i ∧ len i ≤ codeBit
  absent : ∀ i < n, mFreq i = 0 → len i = 0
  kraft : ∑ i ∈ (Finset.range n).filter (fun i => len i ≠ 0), 2 ^ (codeBit - len i) = 2 ^ 16

lemma length_levelList (hexc : Excess cnt m 0) : (levelList cnt 16).length = m := by
  rw [← hexc.count, ← sum_levelList]
  simp

/-- The symbols that occur get all these lengths. -/
lemma map_occurring (hsor : (Multiset.range m).map sorted = (occurring mFreq n).val)
    (hexc : Excess cnt m 0) : (occurring mFreq n).val.map (assignAll sorted (levelList cnt 16) 0 len) =
      (levelList cnt 16 : Multiset ℕ) := by
  have hlen := length_levelList hexc
  have hnod : ((List.range m).map sorted).Nodup := by
    rw [← Multiset.coe_nodup]
    have hval := (occurring mFreq n).nodup
    rwa [← hsor] at hval
  have hinj : ∀ i j, i < j → j < m → sorted i ≠ sorted j := by
    intro i j hij hj heq
    have hij' := List.inj_on_of_nodup_map hnod (List.mem_range.mpr (hij.trans hj))
      (List.mem_range.mpr hj) heq
    omega
  have hlist := @map_assignAll 0 sorted len (levelList cnt 16)
    fun i j hij hj _ => hinj i j hij (by omega)
  rw [hlen, ← List.range_eq_range'] at hlist
  rw [← hsor, Multiset.map_map]
  exact congrArg Multiset.ofList hlist

lemma completeLengths (hsor : (Multiset.range m).map sorted = (occurring mFreq n).val)
    (hexc : Excess cnt m 0) : CompleteLengths n mFreq
      (assignAll sorted (levelList cnt 16) 0 fun i => if i < n then 0 else len i) := by
  have hlen := length_levelList hexc
  have hmap := @map_occurring n m cnt sorted (fun i => if i < n then 0 else len i) mFreq hsor hexc
  generalize hlens : assignAll sorted (levelList cnt 16) 0 (fun i => if i < n then 0 else len i) =
    lens at hmap ⊢
  have hocc : ∀ i ∈ occurring mFreq n, 1 ≤ lens i ∧ lens i ≤ codeBit := by
    intro i hi
    have hmem : lens i ∈ (levelList cnt 16 : Multiset ℕ) :=
      hmap ▸ Multiset.mem_map_of_mem _ (Finset.mem_val.mpr hi)
    exact levelList_bounds (Multiset.mem_coe.mp hmem)
  have habs : ∀ i < n, mFreq i = 0 → lens i = 0 := by
    intro i hi hzero
    rw [← hlens, assignAll_of_notMem, if_pos hi]
    intro j hj heq
    rw [Nat.zero_add] at heq
    have hmem : sorted j ∈ (occurring mFreq n).val :=
      hsor ▸ Multiset.mem_map_of_mem _ (Multiset.mem_range.mpr (hlen ▸ hj))
    rw [heq] at hmem
    exact (Finset.mem_filter.mp (Finset.mem_val.mp hmem)).2 hzero
  have hsame : (Finset.range n).filter (fun i => lens i ≠ 0) = occurring mFreq n := by
    apply Finset.filter_congr
    intro i hi
    have hi := Finset.mem_range.mp hi
    constructor
    · exact fun hne hzero => hne (habs i hi hzero)
    · intro hne
      have hpos := (hocc i (Finset.mem_filter.mpr ⟨Finset.mem_range.mpr hi, hne⟩)).1
      omega
  refine ⟨fun i hi hne => hocc i (Finset.mem_filter.mpr ⟨Finset.mem_range.mpr hi, hne⟩), habs, ?_⟩
  rw [hsame]
  calc ∑ i ∈ occurring mFreq n, 2 ^ (codeBit - lens i)
      = (((occurring mFreq n).val.map lens).map unit).sum := by
        rw [Multiset.map_map]
        rfl
    _ = ((levelList cnt 16).map unit).sum := by rw [hmap, Multiset.map_coe, Multiset.sum_coe]
    _ = 2 ^ 16 := by
        rw [sum_levelList]
        exact hexc.weight

lemma card_occurring_le (mFreq : ℕ → ℕ) (n : ℕ) :
    (occurring mFreq n).card ≤ ∑ i ∈ Finset.range n, mFreq i := by
  calc (occurring mFreq n).card = ∑ i ∈ occurring mFreq n, 1 := by simp
    _ ≤ ∑ i ∈ occurring mFreq n, mFreq i := by
        apply Finset.sum_le_sum
        intro i hi
        exact Nat.one_le_iff_ne_zero.mpr (Finset.mem_filter.mp hi).2
    _ ≤ ∑ i ∈ Finset.range n, mFreq i := Finset.sum_le_sum_of_subset (Finset.filter_subset _ _)

theorem makeTree_completeLengths (n : ℕ) (mFreq : ℕ → ℕ) (a : Arrays)
    (hsum : ∑ i ∈ Finset.range n, mFreq i < 2 ^ 16)
    (htwo : 2 ≤ (occurring mFreq n).card) :
    ∃ tree, makeTree n mFreq a = some tree ∧ CompleteLengths n mFreq tree.len := by
  obtain ⟨hsize, hentries⟩ := @collect_entries mFreq (update a.mHeap 1 0) n
  have hcard := card_occurring_le mFreq n
  unfold makeTree
  generalize collect mFreq n (update a.mHeap 1 0, 0) = heap at hsize hentries ⊢
  obtain ⟨mHeap, mHeapSize⟩ := heap
  obtain rfl : mHeapSize = (occurring mFreq n).card := hsize
  have hentries : entries mHeap (occurring mFreq n).card = (occurring mFreq n).val := hentries
  obtain ⟨mHeap', hheapify, hentries'⟩ := @heapify_entries mFreq mHeap
    (occurring mFreq n).card ((occurring mFreq n).card / 2) (Nat.div_le_self _ _)
  rw [hentries] at hentries'
  -- all symbols are trees of their own
  have hforest : Forest n (occurring mFreq n).card (occurring mFreq n).val
      ⟨mFreq, mHeap', (occurring mFreq n).card, a.mLeft, a.mRight, n, a.code, 0⟩ := by
    have hlt : ∀ i ∈ (occurring mFreq n).val, i < n := by
      intro i hi
      exact Finset.mem_range.mp (Finset.mem_filter.mp (Finset.mem_val.mp hi)).1
    refine ⟨le_rfl, ⟨(occurring mFreq n).val.map fun i => (i, .leaf), ?_, ?_, ?_⟩, ?_⟩
    · rw [Multiset.map_map]
      exact hentries'.trans (Multiset.map_id' _).symm
    · intro p hp
      obtain ⟨i, hi, rfl⟩ := Multiset.mem_map.mp hp
      exact ⟨hlt i hi, .leaf (hlt i hi)⟩
    · rw [Multiset.map_map]
      simp [Shape.leaves]
    · change 0 + (entries mHeap' (occurring mFreq n).card).filter (· < n) = _
      rw [Multiset.zero_add, hentries', Multiset.filter_eq_self.mpr hlt]
  obtain ⟨s, hrun, hforest', hone, havail, hroot⟩ := hforest.run htwo le_rfl
  obtain ⟨⟨t, ht, hleaves⟩, horder⟩ := hforest'.single hone havail hroot
  obtain ⟨cnt, hmakeLen, hexcess⟩ := @makeLen_spec n s.sorted
    (fun i => if i < n then 0 else a.len i) a.mLenCnt s.mLeft s.mRight t (s.avail - 1) ht (by omega)
    (by omega)
  have hptr : s.mSortPtr = (occurring mFreq n).card := by
    have hlength := congrArg Multiset.card horder
    simpa [TreeState.order] using hlength
  unfold TreeState.order at horder
  rw [hptr] at horder
  rw [hleaves] at hexcess
  simp only [Nat.not_lt.mpr htwo, if_false, hheapify, hrun, hmakeLen, Option.bind_eq_bind,
    Option.bind_some]
  exact ⟨_, rfl, completeLengths horder hexcess⟩

/-- At the start all symbols are trees of their own. -/
lemma forest_start {mHeap : ℕ → ℕ}
    (hent : entries mHeap (occurring mFreq n).card = (occurring mFreq n).val) :
    Forest n (occurring mFreq n).card (occurring mFreq n).val
      ⟨mFreq, mHeap, (occurring mFreq n).card, a.mLeft, a.mRight, n, a.code, 0⟩ := by
  have hlt : ∀ i ∈ (occurring mFreq n).val, i < n := fun i hi =>
    Finset.mem_range.mp (Finset.mem_filter.mp (Finset.mem_val.mp hi)).1
  refine ⟨le_rfl, ⟨(occurring mFreq n).val.map fun i => (i, .leaf), ?_, ?_, ?_⟩, ?_⟩
  · rw [Multiset.map_map]
    exact hent.trans (Multiset.map_id' _).symm
  · intro p hp
    obtain ⟨i, hi, rfl⟩ := Multiset.mem_map.mp hp
    exact ⟨hlt i hi, .leaf (hlt i hi)⟩
  · simp [Shape.leaves]
  · change 0 + (entries mHeap (occurring mFreq n).card).filter (· < n) = _
    rw [Multiset.zero_add, hent, Multiset.filter_eq_self.mpr hlt]

/-- The codes are made from the numbers of symbols of each length. -/
lemma makeTree_code (a : Arrays) (hsum : ∑ i ∈ Finset.range n, mFreq i < 2 ^ 16)
    (htwo : 2 ≤ (occurring mFreq n).card) : ∃ tree cnt code, makeTree n mFreq a = some tree ∧
      CompleteLengths n mFreq tree.len ∧
      (occurring mFreq n).val.map tree.len = (levelList cnt 16 : Multiset ℕ) ∧
      tree.code = makeCode cnt tree.len a.stack code n := by
  have hcoll := @collect_entries mFreq (update a.mHeap 1 0) n
  have hcard := card_occurring_le mFreq n
  unfold makeTree
  generalize collect mFreq n (update a.mHeap 1 0, 0) = heap at hcoll ⊢
  obtain ⟨mHeap, mHeapSize⟩ := heap
  obtain ⟨rfl, hent⟩ : mHeapSize = _ ∧ entries mHeap mHeapSize = _ := hcoll
  obtain ⟨mHeap', hheapify, hent'⟩ := @heapify_entries mFreq mHeap
    (occurring mFreq n).card ((occurring mFreq n).card / 2) (Nat.div_le_self _ _)
  obtain ⟨s, hrun, hforest, hone, havail, hroot⟩ :=
    (forest_start (a := a) (hent'.trans hent)).run htwo le_rfl
  obtain ⟨⟨t, ht, hleaves⟩, horder⟩ := hforest.single hone havail hroot
  obtain ⟨cnt, hmakeLen, hexcess⟩ := @makeLen_spec n s.sorted
    (fun i => if i < n then 0 else a.len i) a.mLenCnt s.mLeft s.mRight t (s.avail - 1) ht (by omega)
    (by omega)
  have hptr : s.mSortPtr = (occurring mFreq n).card := by
    simpa [TreeState.order] using congrArg Multiset.card horder
  rw [TreeState.order, hptr] at horder
  rw [hleaves] at hexcess
  simp only [Nat.not_lt.mpr htwo, if_false, hheapify, hrun, hmakeLen, Option.bind_eq_bind,
    Option.bind_some]
  exact ⟨_, cnt, s.sorted, rfl, completeLengths horder hexcess, map_occurring horder hexcess, rfl⟩

/-- Frequencies whose tree has 22 levels. -/
def fibonacciFreq (i : ℕ) : ℕ :=
  [1, 1, 2, 3, 5, 8, 13, 21, 34, 55, 89, 144, 233, 377, 610, 987, 1597, 2584, 4181, 6765, 10946,
    17711].getD i 0

def zeroArrays : Arrays :=
  ⟨fun _ => 0, fun _ => 0, fun _ => 0, fun _ => 0, fun _ => 0, fun _ => 0, fun _ => 0⟩

theorem makeTree_fibonacciFreq : ∃ tree, makeTree 22 fibonacciFreq zeroArrays = some tree ∧
    CompleteLengths 22 fibonacciFreq tree.len :=
  makeTree_completeLengths 22 fibonacciFreq zeroArrays (by decide) (by decide)

end Edk2.EfiCompress
