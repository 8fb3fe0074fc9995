import Mathlib.Algebra.BigOperators.Group.Finset.Basic
import Mathlib.Tactic.Ring

/-!
# Canonical prefix codes

Symbols with given code lengths take intervals of the numbers below `2 ^ cap`: the shorter codes first,
codes of the same length in the order of the symbols. A code of length `d` takes an aligned interval of
`2 ^ (cap - d)` numbers. No two intervals overlap, and they fill up the numbers that the lengths leave
room for.
-/

namespace Canonical

open Finset (range)

variable {cap n c c' d d' x : ℕ} {len : ℕ → ℕ}

/-- The symbols below `n` whose codes have the given length. -/
def count (len : ℕ → ℕ) (n d : ℕ) : ℕ := (List.range n).countP fun c => len c = d

/-- How many numbers a code of length `d` takes. -/
def width (cap d : ℕ) : ℕ := 2 ^ (cap - d)

/-- Where the codes of length `d` start. -/
def base (cap : ℕ) (len : ℕ → ℕ) (n : ℕ) : ℕ → ℕ
  | 0 => 0
  | d + 1 => base cap len n d + if d = 0 then 0 else count len n d * width cap d

/-- Where the code of a symbol starts. -/
def position (cap : ℕ) (len : ℕ → ℕ) (n c : ℕ) : ℕ :=
  base cap len n (len c) + count len c (len c) * width cap (len c)

lemma count_succ : count len (n + 1) d = count len n d + if len n = d then 1 else 0 := by
  unfold count
  rw [List.range_succ, List.countP_append, List.countP_singleton]
  simp

lemma count_mono (h : c ≤ n) : count len c d ≤ count len n d :=
  List.Sublist.countP_le (List.range_sublist.mpr h)

lemma count_lt (h : c < n) : count len c (len c) < count len n (len c) := by
  have hsucc := @count_succ c (len c) len
  rw [if_pos rfl] at hsucc
  have hmono := @count_mono n (c + 1) (len c) len h
  omega

/-- Each rank belongs to a symbol. -/
lemma exists_rank {k : ℕ} (h : k < count len n d) : ∃ c < n, len c = d ∧ count len c d = k := by
  induction n with
  | zero => exact absurd h (Nat.not_lt_zero _)
  | succ n ih =>
    grind [count_succ]

lemma eq_of_rank (h : len c = len c') (hcnt : count len c (len c) = count len c' (len c')) :
    c = c' := by
  rcases Nat.lt_trichotomy c c' with hlt | heq | hlt
  · have hrank := @count_lt c' c len hlt
    rw [h] at hrank hcnt
    omega
  · exact heq
  · have hrank := @count_lt c c' len hlt
    rw [← h] at hrank hcnt
    omega

lemma width_pos (cap d : ℕ) : 0 < width cap d := Nat.two_pow_pos _

lemma width_dvd (h : d ≤ d') : width cap d' ∣ width cap d :=
  Nat.pow_dvd_pow 2 (by omega)

lemma base_succ (h : d ≠ 0) :
    base cap len n (d + 1) = base cap len n d + count len n d * width cap d := by
  rw [base, if_neg h]

lemma base_le_succ : base cap len n d ≤ base cap len n (d + 1) := by
  rw [base]
  exact Nat.le_add_right _ _

lemma base_mono (h : d ≤ d') : base cap len n d ≤ base cap len n d' := by
  induction d', h using Nat.le_induction with
  | base => exact le_rfl
  | succ d' _ ih => exact ih.trans base_le_succ

lemma width_dvd_base (h : d ≤ d' + 1) : width cap d' ∣ base cap len n d := by
  induction d with
  | zero => exact dvd_zero _
  | succ d ih =>
    rw [base]
    refine Nat.dvd_add (ih (by omega)) ?_
    split_ifs
    · exact dvd_zero _
    · exact Dvd.dvd.mul_left (width_dvd (by omega)) _

/-- The interval of a code is aligned. -/
lemma width_dvd_position : width cap (len c) ∣ position cap len n c :=
  Nat.dvd_add (width_dvd_base (Nat.le_succ _)) (Nat.dvd_mul_left _ _)

lemma base_le_position : base cap len n (len c) ≤ position cap len n c := Nat.le_add_right _ _

/-- The interval of a code lies in front of the longer codes. -/
lemma position_add_le (cap : ℕ) (hc : c < n) (hlen : len c ≠ 0) :
    position cap len n c + width cap (len c) ≤ base cap len n (len c + 1) := by
  have hrank := Nat.mul_le_mul_right (width cap (len c)) (@count_lt n c len hc)
  grind [base_succ, Nat.succ_mul, position]

/-- No two codes overlap. -/
lemma position_apart (cap : ℕ) (hc : c < n) (hc' : c' < n) (hlen : len c ≠ 0) (hlen' : len c' ≠ 0)
    (hne : c ≠ c') : position cap len n c + width cap (len c) ≤ position cap len n c' ∨
      position cap len n c' + width cap (len c') ≤ position cap len n c := by
  rcases Nat.lt_trichotomy (len c) (len c') with hlt | heq | hlt
  · left
    exact (position_add_le cap hc hlen).trans ((base_mono hlt).trans base_le_position)
  · have hcnt : count len c (len c) ≠ count len c' (len c') := fun h => hne (eq_of_rank heq h)
    unfold position
    rw [heq] at hcnt ⊢
    rcases Nat.lt_or_gt_of_ne hcnt with hlt | hgt
    · left
      have hmul := Nat.mul_le_mul_right (width cap (len c')) hlt
      rw [Nat.succ_mul] at hmul
      omega
    · right
      have hmul := Nat.mul_le_mul_right (width cap (len c')) hgt
      rw [Nat.succ_mul] at hmul
      omega
  · right
    exact (position_add_le cap hc' hlen').trans ((base_mono hlt).trans base_le_position)

/-- The codes fill up the room that they take. -/
lemma exists_position (h : x < base cap len n d) : ∃ c < n, len c ≠ 0 ∧ len c < d ∧
    position cap len n c ≤ x ∧ x < position cap len n c + width cap (len c) := by
  induction d with
  | zero => exact absurd h (Nat.not_lt_zero _)
  | succ d ih =>
    by_cases hx : x < base cap len n d
    · grind
    · have hd : d ≠ 0 := by
        rintro rfl
        exact hx h
      have hwid := width_pos cap d
      rw [base_succ hd] at h
      -- the rank of the code
      have hrank : (x - base cap len n d) / width cap d < count len n d :=
        Nat.div_lt_of_lt_mul (by rw [Nat.mul_comm]; omega)
      obtain ⟨c, hc, rfl, hcnt⟩ := exists_rank hrank
      have hdiv := Nat.div_mul_le_self (x - base cap len n (len c)) (width cap (len c))
      have hmod := Nat.lt_div_mul_add (a := x - base cap len n (len c)) hwid
      grind [position]

/-- Where the intervals are aligned, a code is a prefix of another one only if the two are the same. -/
lemma eq_of_div_eq (hc : c < n) (hc' : c' < n) (hlen : len c ≠ 0) (hle : len c ≤ len c')
    (h : position cap len n c / width cap (len c) = position cap len n c' / width cap (len c)) :
    c = c' := by
  by_contra hne
  have hwid := width_pos cap (len c)
  have hself := Nat.div_mul_cancel (@width_dvd_position cap n c len)
  have hdiv := Nat.div_mul_le_self (position cap len n c') (width cap (len c))
  have hmod := Nat.lt_div_mul_add (a := position cap len n c') hwid
  rw [h] at hself
  rcases position_apart cap hc hc' hlen (by omega) hne with hapa | hapa
  · omega
  · have hwid' := width_pos cap (len c')
    omega

/-! ### Complete codes -/

lemma base_succ_symbol : base cap len (n + 1) d =
    base cap len n d + if len n ≠ 0 ∧ len n < d then width cap (len n) else 0 := by
  induction d with
  | zero => simp [base]
  | succ d ih =>
    rw [base, base, ih]
    by_cases hd : d = 0
    · subst hd
      simp
    · simp only [hd, if_false, count_succ]
      grind

/-- The room of all codes is the sum of their widths. -/
lemma base_eq_sum (h : ∀ c < n, len c < d) : base cap len n d =
    ∑ c ∈ (range n).filter (fun c => len c ≠ 0), width cap (len c) := by
  induction n with
  | zero =>
    induction d with
    | zero => rfl
    | succ d ih =>
      rw [base, ih (by omega)]
      simp [count]
  | succ n ih =>
    grind [base_succ_symbol, Finset.range_add_one, Finset.filter_insert, Finset.sum_insert,
      Nat.add_comm]

/-- The numbers of a given prefix, cut in the middle. -/
def middle (cap d v : ℕ) : ℕ := (2 * v + 1) * width cap (d + 1)

lemma middle_inj {v v' : ℕ} (hd : d < cap) (hd' : d' < cap)
    (h : middle cap d v = middle cap d' v') : d = d' ∧ v = v' := by
  unfold middle width at h
  have hodd : ∀ a b v v' : ℕ, a < b → (2 * v + 1) * 2 ^ a ≠ (2 * v' + 1) * 2 ^ b := by
    intro a b v v' hlt heq
    obtain ⟨k, rfl⟩ := Nat.exists_eq_add_of_lt hlt
    rw [show a + k + 1 = a + (k + 1) by omega, Nat.pow_add, Nat.pow_succ'] at heq
    have hcan : 2 * v + 1 = (2 * v' + 1) * (2 * 2 ^ k) := by
      apply Nat.eq_of_mul_eq_mul_right (Nat.two_pow_pos a)
      rw [heq]
      ring
    grind
  rcases Nat.lt_trichotomy (cap - (d + 1)) (cap - (d' + 1)) with hlt | heq | hgt
  · exact absurd h (hodd _ _ _ _ hlt)
  · obtain rfl : d = d' := by omega
    have hv := Nat.eq_of_mul_eq_mul_right (Nat.two_pow_pos _) h
    exact ⟨rfl, by omega⟩
  · exact absurd h.symm (hodd _ _ _ _ hgt)

/-- In a complete code a code starts in the middle of each proper prefix of a code. -/
lemma exists_middle {v : ℕ} (hall : base cap len n (cap + 1) = 2 ^ cap) (hc : c < n)
    (hd : d < len c) (hcap : len c ≤ cap) (hv : position cap len n c / width cap d = v) :
    ∃ c' < n, len c' ≠ 0 ∧ position cap len n c' = middle cap d v := by
  have hspl : width cap d = 2 * width cap (d + 1) := by
    unfold width
    rw [← Nat.pow_succ', show cap - d = cap - (d + 1) + 1 by omega]
  have hhalf := width_pos cap (d + 1)
  have hdiv := Nat.div_mul_le_self (position cap len n c) (width cap d)
  have hmod := Nat.lt_div_mul_add (a := position cap len n c) (width_pos cap d)
  rw [hv] at hdiv hmod
  have hmid : middle cap d v = v * width cap d + width cap (d + 1) := by
    rw [hspl]
    unfold middle
    ring
  -- all numbers with the prefix belong to codes
  have hend := position_add_le cap hc (show len c ≠ 0 by omega)
  have htot : base cap len n (len c + 1) ≤ 2 ^ cap := hall ▸ base_mono (by omega)
  have hpow : 2 ^ cap = 2 ^ d * width cap d := by
    unfold width
    rw [← Nat.pow_add, Nat.add_sub_cancel' (by omega)]
  have hwid := width_pos cap (len c)
  have hlt : v < 2 ^ d := by
    rw [hpow] at htot
    exact Nat.lt_of_mul_lt_mul_right (a := width cap d) (by omega)
  have hblo : v * width cap d + width cap d ≤ 2 ^ cap := by
    rw [hpow, ← Nat.succ_mul]
    exact Nat.mul_le_mul_right _ hlt
  obtain ⟨c', hc', hlen', -, hle, hin⟩ :=
    exists_position (show middle cap d v < base cap len n (cap + 1) by omega)
  refine ⟨c', hc', hlen', ?_⟩
  rcases Nat.lt_or_ge d (len c') with hlong | hsho
  · -- the code is aligned like the middle
    have hali : width cap (len c') ∣ middle cap d v :=
      Dvd.dvd.mul_left (width_dvd hlong) _
    obtain ⟨a, ha⟩ := hali
    obtain ⟨b, hb⟩ := @width_dvd_position cap n c' len
    rw [ha, hb] at hle hin
    rw [ha, hb]
    have hwid' := width_pos cap (len c')
    have hab : a < b + 1 := by
      rw [← Nat.mul_succ] at hin
      exact Nat.lt_of_mul_lt_mul_left hin
    have hba : b ≤ a := Nat.le_of_mul_le_mul_left hle hwid'
    rw [show a = b by omega]
  · -- a shorter code would take all numbers with the prefix
    exfalso
    obtain ⟨a, ha⟩ : width cap d ∣ position cap len n c' :=
      (width_dvd hsho).trans width_dvd_position
    obtain ⟨b, hb⟩ : width cap d ∣ width cap (len c') := width_dvd hsho
    have hne : c' ≠ c := by
      rintro rfl
      omega
    rw [ha, hmid] at hle
    rw [ha, hb, hmid, Nat.mul_comm v, ← Nat.mul_add] at hin
    rw [Nat.mul_comm v] at hle hdiv hmod
    have hav : a ≤ v := by
      by_contra hlt
      have hmul := Nat.mul_le_mul_left (width cap d) (show v + 1 ≤ a by omega)
      rw [Nat.mul_succ] at hmul
      omega
    have hvb : v < a + b := by
      by_contra hle
      have hmul := Nat.mul_le_mul_left (width cap d) (show a + b ≤ v by omega)
      omega
    have hlow := Nat.mul_le_mul_left (width cap d) hav
    have hhigh := Nat.mul_le_mul_left (width cap d) (show v + 1 ≤ a + b by omega)
    rw [Nat.mul_succ] at hhigh
    rcases position_apart cap hc' hc hlen' (by omega) hne with hapa | hapa
    · rw [ha, hb, ← Nat.mul_add] at hapa
      omega
    · rw [ha] at hapa
      omega

/-- A complete code has more codes than proper prefixes. -/
theorem card_prefixes_lt (hall : base cap len n (cap + 1) = 2 ^ cap) {prefixes : Finset (ℕ × ℕ)}
    (h : ∀ q ∈ prefixes, ∃ c < n, q.1 < len c ∧ len c ≤ cap ∧
      position cap len n c / width cap q.1 = q.2) : prefixes.card < n := by
  have hexi : ∀ q ∈ prefixes, ∃ c < n, len c ≠ 0 ∧ position cap len n c = middle cap q.1 q.2 := by
    intro q hq
    obtain ⟨c, hc, hd, hcap, hv⟩ := h q hq
    exact exists_middle hall hc hd hcap hv
  choose! f hf hlen hposi using hexi
  -- one code starts at zero, and no middle does
  obtain ⟨c₀, hc₀, hlen₀, -, hzero, -⟩ :=
    exists_position (show 0 < base cap len n (cap + 1) by rw [hall]; exact Nat.two_pow_pos _)
  have hmaps : ∀ q ∈ prefixes, f q ∈ (range n).erase c₀ := by
    intro q hq
    refine Finset.mem_erase.mpr ⟨fun heq => ?_, Finset.mem_range.mpr (hf q hq)⟩
    have hmid := hposi q hq
    rw [heq] at hmid
    have hpos : 0 < middle cap q.1 q.2 := Nat.mul_pos (Nat.succ_pos _) (width_pos _ _)
    omega
  have hinj : ∀ q ∈ prefixes, ∀ q' ∈ prefixes, f q = f q' → q = q' := by
    intro q hq q' hq' heq
    have hmid := hposi q hq
    rw [heq, hposi q' hq'] at hmid
    obtain ⟨c, -, hd, hcap, -⟩ := h q hq
    obtain ⟨c', -, hd', hcap', -⟩ := h q' hq'
    obtain ⟨h₁, h₂⟩ := middle_inj (by omega) (by omega) hmid.symm
    exact Prod.ext h₁ h₂
  have hcard := Finset.card_le_card_of_injOn f hmaps hinj
  rw [Finset.card_erase_of_mem (Finset.mem_range.mpr hc₀), Finset.card_range] at hcard
  omega

end Canonical
