import Edk2.Lib.Align
import Edk2.Page.Model

/-!
# The search for free pages

`CoreFindFreePagesI` keeps the best end that it has seen. Each descriptor has at most one candidate,
the end of the highest aligned range that fits in it, and the target is the greatest of the
candidates. Two sums wrap around: the end of a descriptor that is clipped below the alignment, and
the length of a descriptor that is the whole address space.
-/

namespace Edk2.Page

open Edk2.Pool (MemoryType efiConventionalMemory)
open Align

variable {map : List MemoryMap} {top maxAddress minAddress numberOfPages bytes alignment
  target base : ℕ} {e : MemoryMap}

/-- A map as the search gets it: sorted, disjoint and in whole pages. -/
structure PageMap (map : List MemoryMap) : Prop where
  sorted : map.Pairwise fun e e' => e.stop < e'.start
  start_mod : ∀ e ∈ map, e.start % efiPageSize = 0
  stop_mod : ∀ e ∈ map, (e.stop + 1) % efiPageSize = 0
  nonempty : ∀ e ∈ map, e.start < e.stop
  stop_lt : ∀ e ∈ map, e.stop < 2 ^ 64

/-- The range lies in the descriptor, which is free, and has the alignment and the limits. -/
structure FitsIn (maxAddress minAddress bytes alignment : ℕ) (e : MemoryMap) (base : ℕ) : Prop where
  type : e.type = efiConventionalMemory
  aligned : alignment ∣ base
  min_le : minAddress ≤ base
  le_max : base + bytes ≤ maxAddress + 1
  start_le : e.start ≤ base
  le_stop : base + bytes ≤ e.stop + 1

/-- There is such a range of at least one page at the address. -/
def Fits (map : List MemoryMap) (maxAddress minAddress numberOfPages alignment base : ℕ) : Prop :=
  numberOfPages ≠ 0 ∧
    ∃ e ∈ map, FitsIn maxAddress minAddress (efiPageSize * numberOfPages) alignment e base

/-- The highest range that fits, if it is not at address zero, and else zero. -/
def IsHighest (map : List MemoryMap) (maxAddress minAddress numberOfPages alignment base : ℕ) :
    Prop :=
  (base ≠ 0 → Fits map maxAddress minAddress numberOfPages alignment base) ∧
    ∀ b, Fits map maxAddress minAddress numberOfPages alignment b → b ≤ base

/-- The descriptor is clipped to less than the alignment: its rounded end is above all others. -/
structure LowClip (top minAddress bytes alignment : ℕ) (e : MemoryMap) : Prop where
  type : e.type = efiConventionalMemory
  pos : 0 < e.start
  start_lt : e.start < top
  min_le : minAddress ≤ e.stop
  min_le_top : minAddress ≤ 2 ^ 64 - bytes
  clipped : min e.stop top + 1 < alignment

/-- The descriptor is the whole address space: its length is zero. -/
structure WholeSpace (top minAddress bytes : ℕ) (e : MemoryMap) : Prop where
  type : e.type = efiConventionalMemory
  start : e.start = 0
  stop : e.stop = 2 ^ 64 - 1
  top : top = 2 ^ 64 - 1
  min_le_top : minAddress ≤ 2 ^ 64 - bytes

/-- A request with an alignment of whole pages that divides the address space and the length. -/
structure Request (minAddress bytes alignment : ℕ) : Prop where
  bytes_pos : 0 < bytes
  bytes_lt : bytes < 2 ^ 48
  pages : efiPageSize ∣ alignment
  half : alignment ∣ 2 ^ 63
  aligned : alignment ∣ bytes
  min_lt : minAddress < 2 ^ 64

/-- The end of the descriptor, not above the limit and aligned. -/
def alignedEnd (top alignment : ℕ) (e : MemoryMap) : ℕ := roundDown (min e.stop top + 1) alignment

/-! ### One descriptor -/

lemma Request.alignment_pos (h : Request minAddress bytes alignment) : 0 < alignment :=
  Nat.pos_of_dvd_of_pos h.aligned h.bytes_pos

lemma Request.alignment_le (h : Request minAddress bytes alignment) : alignment ≤ 2 ^ 63 :=
  Nat.le_of_dvd (by decide) h.half

lemma Request.dvd_top (h : Request minAddress bytes alignment) : alignment ∣ 2 ^ 64 :=
  h.half.trans ⟨2, by decide⟩

lemma descEnd_eq (hr : Request minAddress bytes alignment) (hstop : e.stop < 2 ^ 64)
    (htop : top < 2 ^ 64) : descEnd top alignment e =
      if min e.stop top + 1 < alignment then 2 ^ 64 - 1 else alignedEnd top alignment e - 1 := by
  have hmin : (if e.stop ≥ top then top else e.stop) = min e.stop top := by
    split_ifs <;> omega
  unfold descEnd
  dsimp only
  rw [hmin]
  have hle : min e.stop top + 1 ≤ 2 ^ 64 := by omega
  unfold alignedEnd
  generalize min e.stop top + 1 = limit at hle
  split_ifs with hlow
  · have hlt : limit < 2 ^ 64 := hlow.trans_le (hr.alignment_le.trans (by decide))
    rw [u64_of_lt hlt, Nat.mod_eq_of_lt hlow, Nat.sub_self]
    decide
  · have hrou := roundDown_le limit alignment
    have hpos : alignment ≤ roundDown limit alignment := le_roundDown (not_lt.mp hlow) dvd_rfl
    have hapos := hr.alignment_pos
    rcases Nat.lt_or_eq_of_le hle with hlt | rfl
    · rw [u64_of_lt hlt]
      change u64 (roundDown limit alignment + (2 ^ 64 - 1)) = _
      unfold u64
      omega
    · have hzero : u64 (2 ^ 64) = 0 := by decide
      rw [roundDown_of_dvd hr.dvd_top, hzero, Nat.zero_mod]
      decide

/-- The candidate of a descriptor: what it makes of a target of zero. -/
def candidate (top minAddress bytes alignment : ℕ) (e : MemoryMap) : ℕ :=
  bestMatch top minAddress bytes alignment 0 e

lemma bestMatch_eq_max : bestMatch top minAddress bytes alignment target e =
    max target (candidate top minAddress bytes alignment e) := by
  unfold candidate bestMatch
  dsimp only
  split_ifs <;> omega

/-- A descriptor that is clipped to less than the alignment: nothing fits in it, and its candidate
is the top of the address space. -/
lemma candidate_low (hr : Request minAddress bytes alignment) (hne : e.start < e.stop)
    (hstop : e.stop < 2 ^ 64) (htop : top < 2 ^ 64) (hlow : min e.stop top + 1 < alignment) :
    (∀ b, ¬ FitsIn top minAddress bytes alignment e b) ∧
      (LowClip top minAddress bytes alignment e →
        candidate top minAddress bytes alignment e = 2 ^ 64 - 1) ∧
      (¬ LowClip top minAddress bytes alignment e →
        candidate top minAddress bytes alignment e = 0) := by
  have hpos := hr.bytes_pos
  have hlt := hr.bytes_lt
  have hale := hr.alignment_le
  have hend := descEnd_eq hr hstop htop
  rw [if_pos hlow] at hend
  refine ⟨fun b hb => ?_, fun hclip => ?_, fun hclip => ?_⟩
  · obtain ⟨-, hali, -, hmax, -, hle⟩ := hb
    have hmul : alignment ≤ b + bytes :=
      Nat.le_of_dvd (by omega) ((Nat.dvd_add_iff_right hali).mp hr.aligned)
    omega
  · obtain ⟨htype, hsta, hsta', hmin, hmin', -⟩ := hclip
    have hroom : u64 (2 ^ 64 - 1 - e.start + 1) = 2 ^ 64 - e.start := by
      rw [u64_of_lt (by omega)]
      omega
    have hbase : u64 (2 ^ 64 - 1 + 2 ^ 64 - bytes + 1) = 2 ^ 64 - bytes := by
      unfold u64
      omega
    unfold candidate bestMatch
    dsimp only
    rw [hend, if_neg (by simpa using htype), if_neg (by omega), if_neg (by omega), hroom,
      if_pos (by omega), hbase, if_neg (by omega), if_pos (by decide)]
  · unfold candidate bestMatch
    dsimp only
    rw [hend]
    by_contra hzero
    split_ifs at hzero with htype hskip hemp hroom hmin
    · exact hzero rfl
    · exact hzero rfl
    · exact hzero rfl
    · exact hzero rfl
    · refine hclip ⟨not_not.mp htype, ?_, by omega, by omega, ?_, hlow⟩
      · by_contra hpos'
        have hsta : e.start = 0 := by omega
        have hfull : u64 (2 ^ 64 - 1 - e.start + 1) = 0 := by
          rw [hsta]
          decide
        omega
      · grind [u64]
    · exact hzero rfl
    · exact hzero rfl

/-- Any other descriptor: its candidate is the last address of the highest range that fits in it,
or zero if there is none. -/
lemma candidate_regular (hr : Request minAddress bytes alignment) (hne : e.start < e.stop)
    (hstop : e.stop < 2 ^ 64) (htop : top < 2 ^ 64)
    (hlow : ¬ min e.stop top + 1 < alignment)
    (hwho : ¬ WholeSpace top minAddress bytes e) :
    ((∀ b, ¬ FitsIn top minAddress bytes alignment e b) ∧
        candidate top minAddress bytes alignment e = 0) ∨
      ∃ b, FitsIn top minAddress bytes alignment e b ∧
        (∀ b', FitsIn top minAddress bytes alignment e b' → b' ≤ b) ∧
        candidate top minAddress bytes alignment e = b + bytes - 1 := by
  have hpos := hr.bytes_pos
  have hend := descEnd_eq hr hstop htop
  rw [if_neg hlow] at hend
  have hle : alignedEnd top alignment e ≤ min e.stop top + 1 := roundDown_le _ _
  have hge : alignment ≤ alignedEnd top alignment e := le_roundDown (not_lt.mp hlow) dvd_rfl
  have hapos := hr.alignment_pos
  have hdvd : alignment ∣ alignedEnd top alignment e := dvd_roundDown _ _
  -- no range that fits ends above the rounded end
  have hhigh : ∀ b, FitsIn top minAddress bytes alignment e b →
      b + bytes ≤ alignedEnd top alignment e := by
    rintro b ⟨-, hali, -, hmax, -, hsto'⟩
    exact le_roundDown (by omega) ((Nat.dvd_add_iff_right hali).mp hr.aligned)
  generalize alignedEnd top alignment e = last at hend hle hge hdvd hhigh
  have hcan : candidate top minAddress bytes alignment e =
      if e.type ≠ efiConventionalMemory then 0
      else if e.start ≥ top ∨ e.stop < minAddress then 0
      else if last - 1 < e.start then 0
      else if u64 (last - 1 - e.start + 1) ≥ bytes then
        if u64 (last - 1 + 2 ^ 64 - bytes + 1) < minAddress then 0 else last - 1
      else 0 := by
    unfold candidate bestMatch
    dsimp only
    rw [hend]
    split_ifs <;> omega
  rw [hcan]
  by_cases htype : e.type = efiConventionalMemory
  swap
  · rw [if_pos htype]
    exact .inl ⟨fun b hb => htype hb.type, rfl⟩
  rw [if_neg (not_not.mpr htype)]
  by_cases hskip : e.start ≥ top ∨ e.stop < minAddress
  · rw [if_pos hskip]
    refine .inl ⟨fun b hb => ?_, rfl⟩
    obtain ⟨-, -, hmin, hmax, hlo, hhi⟩ := hb
    have hpag : bytes ≠ 1 := by
      rintro rfl
      have := Nat.le_of_dvd one_pos (hr.pages.trans hr.aligned)
      exact absurd this (by decide)
    omega
  rw [if_neg hskip]
  by_cases hemp : last - 1 < e.start
  · rw [if_pos hemp]
    refine .inl ⟨fun b hb => ?_, rfl⟩
    have := hhigh b hb
    have := hb.start_le
    omega
  rw [if_neg hemp]
  by_cases hfull : e.start = 0 ∧ last = 2 ^ 64
  · obtain ⟨hzero, rfl⟩ := hfull
    have hroom : u64 (2 ^ 64 - 1 - e.start + 1) = 0 := by
      rw [hzero]
      decide
    rw [hroom, if_neg (by omega)]
    refine .inl ⟨fun b hb => hwho ⟨htype, hzero, by omega, by omega, ?_⟩, rfl⟩
    have := hhigh b hb
    have := hb.min_le
    omega
  have hroom : u64 (last - 1 - e.start + 1) = last - e.start := by
    rw [u64_of_lt (by omega)]
    omega
  rw [hroom]
  by_cases hbyt : last - e.start ≥ bytes
  swap
  · rw [if_neg hbyt]
    refine .inl ⟨fun b hb => ?_, rfl⟩
    have := hhigh b hb
    have := hb.start_le
    omega
  have hbase : u64 (last - 1 + 2 ^ 64 - bytes + 1) = last - bytes := by
    unfold u64
    omega
  rw [if_pos hbyt, hbase]
  by_cases hmin : last - bytes < minAddress
  · rw [if_pos hmin]
    refine .inl ⟨fun b hb => ?_, rfl⟩
    have := hhigh b hb
    have := hb.min_le
    omega
  rw [if_neg hmin]
  refine .inr ⟨last - bytes, ⟨htype, Nat.dvd_sub hdvd hr.aligned, by omega, by omega, by omega,
    by omega⟩, fun b hb => ?_, by omega⟩
  have := hhigh b hb
  omega

/-! ### The whole map -/

lemma foldl_bestMatch (map : List MemoryMap) (target : ℕ) :
    target ≤ map.foldl (bestMatch top minAddress bytes alignment) target ∧
      (∀ e ∈ map, candidate top minAddress bytes alignment e ≤
        map.foldl (bestMatch top minAddress bytes alignment) target) ∧
      (map.foldl (bestMatch top minAddress bytes alignment) target = target ∨
        ∃ e ∈ map, map.foldl (bestMatch top minAddress bytes alignment) target =
          candidate top minAddress bytes alignment e) := by
  induction map generalizing target with
  | nil => exact ⟨le_rfl, by simp, .inl rfl⟩
  | cons e map ih =>
    grind [bestMatch_eq_max]

lemma le_endOfPage (hmax : efiPageMask ≤ maxAddress) {n : ℕ} (hn : efiPageSize ∣ n) :
    n ≤ maxAddress + 1 ↔ n ≤ endOfPage maxAddress + 1 := by
  obtain ⟨k, rfl⟩ := hn
  unfold endOfPage efiPageSize efiPageMask at *
  split_ifs <;> omega

lemma endOfPage_le (hmax : efiPageMask ≤ maxAddress) : endOfPage maxAddress ≤ maxAddress := by
  unfold endOfPage efiPageSize efiPageMask at *
  split_ifs <;> omega

lemma fitsIn_endOfPage (hr : Request minAddress bytes alignment)
    (hmax : efiPageMask ≤ maxAddress) :
    FitsIn maxAddress minAddress bytes alignment e base ↔
      FitsIn (endOfPage maxAddress) minAddress bytes alignment e base := by
  have hlim : alignment ∣ base →
      (base + bytes ≤ maxAddress + 1 ↔ base + bytes ≤ endOfPage maxAddress + 1) :=
    fun h => le_endOfPage hmax (hr.pages.trans (Nat.dvd_add h hr.aligned))
  constructor
  · rintro ⟨htype, hali, hmin, hle, hlo, hhi⟩
    exact ⟨htype, hali, hmin, (hlim hali).mp hle, hlo, hhi⟩
  · rintro ⟨htype, hali, hmin, hle, hlo, hhi⟩
    exact ⟨htype, hali, hmin, (hlim hali).mpr hle, hlo, hhi⟩

/-- The base of the range that ends at the target; zero if nothing was found. -/
def baseOf (target bytes : ℕ) : ℕ :=
  let base := u64 (target + 2 ^ 64 + 1 - bytes)
  if base % efiPageSize ≠ 0 then 0 else base

lemma baseOf_zero (hr : Request minAddress bytes alignment) : baseOf 0 bytes = 0 := by
  have hpos := hr.bytes_pos
  have hlt := hr.bytes_lt
  obtain ⟨k, hk⟩ := hr.pages.trans hr.aligned
  unfold efiPageSize at hk
  have hbase : u64 (0 + 2 ^ 64 + 1 - bytes) = 2 ^ 64 + 1 - bytes := by
    rw [u64_of_lt (by omega)]
    omega
  unfold baseOf
  dsimp only
  rw [hbase, if_pos]
  unfold efiPageSize
  omega

lemma baseOf_end (hr : Request minAddress bytes alignment) (hb : alignment ∣ base)
    (hle : base + bytes ≤ 2 ^ 64) : baseOf (base + bytes - 1) bytes = base := by
  have hpos := hr.bytes_pos
  have hbase : u64 (base + bytes - 1 + 2 ^ 64 + 1 - bytes) = base := by
    unfold u64
    omega
  unfold baseOf
  dsimp only
  rw [hbase, if_neg (not_not.mpr (Nat.mod_eq_zero_of_dvd (hr.pages.trans hb)))]

/-- The search meets no sum that wraps around, or the range at the top of the address space, which
it then finds, fits. -/
def NoWrap (map : List MemoryMap) (maxAddress minAddress numberOfPages alignment : ℕ) : Prop :=
  numberOfPages = 0 ∨
    ((∀ e ∈ map, ¬ LowClip (endOfPage maxAddress) minAddress (efiPageSize * numberOfPages)
        alignment e) ∨
      Fits map maxAddress minAddress numberOfPages alignment
        (2 ^ 64 - efiPageSize * numberOfPages)) ∧
    ∀ e ∈ map, ¬ WholeSpace (endOfPage maxAddress) minAddress (efiPageSize * numberOfPages) e

lemma coreFindFreePagesI_eq (hr : Request minAddress (efiPageSize * numberOfPages) alignment)
    (hmax : efiPageMask ≤ maxAddress) (hn : numberOfPages ≠ 0) :
    coreFindFreePagesI maxAddress minAddress numberOfPages alignment map =
      baseOf (map.foldl (bestMatch (endOfPage maxAddress) minAddress
        (efiPageSize * numberOfPages) alignment) 0) (efiPageSize * numberOfPages) := by
  have hbyt : u64 (numberOfPages * efiPageSize) = efiPageSize * numberOfPages := by
    rw [Nat.mul_comm]
    exact u64_of_lt (hr.bytes_lt.trans (by decide))
  unfold coreFindFreePagesI
  rw [if_neg (by omega), hbyt]
  rfl

lemma search_cases (map : List MemoryMap)
    (hr : Request minAddress (efiPageSize * numberOfPages) alignment)
    (hmax : efiPageMask ≤ maxAddress) (hn : numberOfPages ≠ 0) :
    ∃ target, coreFindFreePagesI maxAddress minAddress numberOfPages alignment map =
        baseOf target (efiPageSize * numberOfPages) ∧
      (∀ e ∈ map, candidate (endOfPage maxAddress) minAddress (efiPageSize * numberOfPages)
        alignment e ≤ target) ∧
      (target = 0 ∨ ∃ e ∈ map, target = candidate (endOfPage maxAddress) minAddress
        (efiPageSize * numberOfPages) alignment e) := by
  obtain ⟨-, hall, hatt⟩ := @foldl_bestMatch (endOfPage maxAddress) minAddress
    (efiPageSize * numberOfPages) alignment map 0
  exact ⟨_, coreFindFreePagesI_eq hr hmax hn, hall, hatt⟩

lemma candidate_cases (hr : Request minAddress bytes alignment) (hne : e.start < e.stop)
    (hstop : e.stop < 2 ^ 64) (htop : top < 2 ^ 64) :
    WholeSpace top minAddress bytes e ∨
      ((∀ b, ¬ FitsIn top minAddress bytes alignment e b) ∧
        candidate top minAddress bytes alignment e = 0) ∨
      ((∀ b, ¬ FitsIn top minAddress bytes alignment e b) ∧
        LowClip top minAddress bytes alignment e ∧
        candidate top minAddress bytes alignment e = 2 ^ 64 - 1) ∨
      ∃ b, FitsIn top minAddress bytes alignment e b ∧
        (∀ b', FitsIn top minAddress bytes alignment e b' → b' ≤ b) ∧
        candidate top minAddress bytes alignment e = b + bytes - 1 := by
  by_cases hlow : min e.stop top + 1 < alignment
  · obtain ⟨hnone, hclip, hcli'⟩ := candidate_low hr hne hstop htop hlow
    by_cases h : LowClip top minAddress bytes alignment e
    · exact .inr (.inr (.inl ⟨hnone, h, hclip h⟩))
    · exact .inr (.inl ⟨hnone, hcli' h⟩)
  · by_cases hwho : WholeSpace top minAddress bytes e
    · exact .inl hwho
    · rcases candidate_regular hr hne hstop htop hlow hwho with h | h
      · exact .inr (.inl h)
      · exact .inr (.inr (.inr h))

lemma candidate_whole (hr : Request minAddress bytes alignment)
    (h : WholeSpace top minAddress bytes e) : candidate top minAddress bytes alignment e = 0 := by
  obtain ⟨htype, hsta, hstop, rfl, hmin⟩ := h
  have hpos := hr.bytes_pos
  have hale := hr.alignment_le
  have hend : descEnd (2 ^ 64 - 1) alignment e = 2 ^ 64 - 1 := by
    rw [descEnd_eq hr (by omega) (by decide), hstop, min_self, if_neg (by omega)]
    unfold alignedEnd
    rw [hstop, min_self, Nat.sub_add_cancel (by decide), roundDown_of_dvd hr.dvd_top]
  have hfull : u64 (2 ^ 64 - 1 - e.start + 1) = 0 := by
    rw [hsta]
    decide
  unfold candidate bestMatch
  dsimp only
  rw [hend, hfull, if_neg (not_not.mpr htype), if_neg (by omega), if_neg (by omega),
    if_neg (by omega)]

lemma fitsIn_whole (hr : Request minAddress bytes alignment)
    (h : WholeSpace top minAddress bytes e) :
    FitsIn top minAddress bytes alignment e (2 ^ 64 - bytes) := by
  obtain ⟨htype, hsta, hstop, rfl, hmin⟩ := h
  have hlt := hr.bytes_lt
  exact ⟨htype, Nat.dvd_sub hr.dvd_top hr.aligned, hmin, by omega, by omega, by omega⟩

lemma PageMap.eq_of_whole (hmap : PageMap map) (he : e ∈ map)
    (h : WholeSpace top minAddress bytes e) {f : MemoryMap} (hf : f ∈ map) : f = e := by
  by_contra hne
  have hstop := hmap.stop_lt f hf
  have hsta := hmap.nonempty f hf
  have hsymm : Std.Symm fun e e' : MemoryMap => e.stop < e'.start ∨ e'.stop < e.start :=
    ⟨fun _ _ => Or.symm⟩
  have hpair : map.Pairwise fun e e' => e.stop < e'.start ∨ e'.stop < e.start :=
    hmap.sorted.imp Or.inl
  have hord := hpair.forall hf he hne
  have := h.start
  have := h.stop
  omega

lemma baseOf_lowClip (hmap : PageMap map) (htop : top < 2 ^ 64)
    (hr : Request minAddress bytes alignment) (he : e ∈ map)
    (hlow : LowClip top minAddress bytes alignment e)
    (hall : ∀ e ∈ map, candidate top minAddress bytes alignment e ≤ target)
    (hatt : target = 0 ∨ ∃ e ∈ map, target = candidate top minAddress bytes alignment e) :
    baseOf target bytes = 2 ^ 64 - bytes := by
  have hpos := hr.bytes_pos
  have hlt := hr.bytes_lt
  have hge := hall e he
  rw [(candidate_low hr (hmap.nonempty e he) (hmap.stop_lt e he) htop hlow.clipped).2.1 hlow]
    at hge
  have htar : target = 2 ^ 64 - bytes + bytes - 1 := by
    rcases hatt with rfl | ⟨f, hf, rfl⟩
    · omega
    rcases candidate_cases hr (hmap.nonempty f hf) (hmap.stop_lt f hf) htop with
      hwho | ⟨-, heq⟩ | ⟨-, -, heq⟩ | ⟨b, hb, -, heq⟩
    · rw [candidate_whole hr hwho] at hge
      omega
    · omega
    · omega
    · have := hb.le_max
      omega
  rw [htar, baseOf_end hr (Nat.dvd_sub hr.dvd_top hr.aligned) (by omega)]

lemma isHighest_of_noWrap (hmap : PageMap map) (hlt : maxAddress < 2 ^ 64)
    (hr : Request minAddress (efiPageSize * numberOfPages) alignment)
    (hmax : efiPageMask ≤ maxAddress) (hn : numberOfPages ≠ 0)
    (hwrap : NoWrap map maxAddress minAddress numberOfPages alignment) :
    IsHighest map maxAddress minAddress numberOfPages alignment
      (coreFindFreePagesI maxAddress minAddress numberOfPages alignment map) := by
  obtain ⟨hclip, hwho⟩ := hwrap.resolve_left hn
  have htop : endOfPage maxAddress < 2 ^ 64 := (endOfPage_le hmax).trans_lt hlt
  have hpos := hr.bytes_pos
  obtain ⟨target, heq, hall, hatt⟩ := search_cases map hr hmax hn
  rw [heq]
  by_cases hlow : ∃ e ∈ map, LowClip (endOfPage maxAddress) minAddress
      (efiPageSize * numberOfPages) alignment e
  · obtain ⟨e, he, hlow⟩ := hlow
    rw [baseOf_lowClip hmap htop hr he hlow hall hatt]
    refine ⟨fun _ => hclip.resolve_left fun h => h e he hlow, fun b ⟨_, f, hf, hb⟩ => ?_⟩
    have := hb.le_max
    omega
  -- every candidate is the end of a range that fits, or zero
  have hcas := fun f hf =>
    candidate_cases hr (hmap.nonempty f hf) (hmap.stop_lt f hf) htop
  have hle : ∀ b, Fits map maxAddress minAddress numberOfPages alignment b →
      b + efiPageSize * numberOfPages - 1 ≤ target := by
    rintro b ⟨-, f, hf, hb⟩
    rw [fitsIn_endOfPage hr hmax] at hb
    refine le_trans ?_ (hall f hf)
    rcases hcas f hf with h | ⟨hnone, -⟩ | ⟨-, h, -⟩ | ⟨b', -, hgre, hcand⟩
    · exact absurd h (hwho f hf)
    · exact absurd hb (hnone b)
    · exact absurd ⟨f, hf, h⟩ hlow
    · have := hgre b hb
      omega
  have hfnd : target = 0 ∨ ∃ b, Fits map maxAddress minAddress numberOfPages alignment b ∧
      target = b + efiPageSize * numberOfPages - 1 := by
    rcases hatt with hzero | ⟨f, hf, hcand⟩
    · exact .inl hzero
    rcases hcas f hf with h | ⟨-, hzero⟩ | ⟨-, h, -⟩ | ⟨b, hb, -, hend⟩
    · exact absurd h (hwho f hf)
    · exact .inl (hcand.trans hzero)
    · exact absurd ⟨f, hf, h⟩ hlow
    · exact .inr ⟨b, ⟨hn, f, hf, (fitsIn_endOfPage hr hmax).mpr hb⟩, hcand.trans hend⟩
  rcases hfnd with rfl | ⟨b, hb, rfl⟩
  · rw [baseOf_zero hr]
    refine ⟨fun h => absurd rfl h, fun b hb => ?_⟩
    have := hle b hb
    omega
  · obtain ⟨-, f, hf, hbf⟩ := id hb
    have := hbf.le_max
    rw [baseOf_end hr hbf.aligned (by omega)]
    refine ⟨fun _ => hb, fun b' hb' => ?_⟩
    have := hle b' hb'
    omega

lemma noWrap_of_isHighest (hmap : PageMap map) (hlt : maxAddress < 2 ^ 64)
    (hr : Request minAddress (efiPageSize * numberOfPages) alignment)
    (hmax : efiPageMask ≤ maxAddress) (hn : numberOfPages ≠ 0)
    (hbest : IsHighest map maxAddress minAddress numberOfPages alignment
      (coreFindFreePagesI maxAddress minAddress numberOfPages alignment map)) :
    NoWrap map maxAddress minAddress numberOfPages alignment := by
  have htop : endOfPage maxAddress < 2 ^ 64 := (endOfPage_le hmax).trans_lt hlt
  have hpos := hr.bytes_pos
  have hbyt := hr.bytes_lt
  obtain ⟨target, heq, hall, hatt⟩ := search_cases map hr hmax hn
  rw [heq] at hbest
  refine .inr ⟨?_, fun e he hwho => ?_⟩
  · by_contra hclip
    push Not at hclip
    obtain ⟨⟨e, he, hlow⟩, hfit⟩ := hclip
    rw [baseOf_lowClip hmap htop hr he hlow hall hatt] at hbest
    exact hfit (hbest.1 (by omega))
  · have hzero : target = 0 := by
      rcases hatt with hzero | ⟨f, hf, hcand⟩
      · exact hzero
      · rw [hcand, hmap.eq_of_whole he hwho hf, candidate_whole hr hwho]
    subst hzero
    rw [baseOf_zero hr] at hbest
    have hfit := (fitsIn_endOfPage hr hmax).mpr (fitsIn_whole hr hwho)
    have := hbest.2 _ ⟨hn, e, he, hfit⟩
    omega

/-- `CoreFindFreePagesI` returns the highest range that fits exactly when neither the rounded end
of a descriptor nor the length of one wraps around. -/
theorem isHighest_coreFindFreePagesI_iff (map : List MemoryMap)
    (maxAddress minAddress numberOfPages k : ℕ) (hmap : PageMap map)
    (hlt : maxAddress < 2 ^ 64) (hmin : minAddress < 2 ^ 64) (hk : 12 ≤ k) (hk' : k < 64)
    (hdvd : 2 ^ k ∣ efiPageSize * numberOfPages) (hbytes : efiPageSize * numberOfPages < 2 ^ 48) :
    IsHighest map maxAddress minAddress numberOfPages (2 ^ k)
        (coreFindFreePagesI maxAddress minAddress numberOfPages (2 ^ k) map) ↔
      NoWrap map maxAddress minAddress numberOfPages (2 ^ k) := by
  rcases Nat.eq_zero_or_pos numberOfPages with rfl | hn
  · unfold coreFindFreePagesI
    rw [if_pos (.inr rfl)]
    exact iff_of_true ⟨fun h => absurd rfl h, fun b hb => absurd rfl hb.1⟩ (.inl rfl)
  have hr : Request minAddress (efiPageSize * numberOfPages) (2 ^ k) :=
    ⟨Nat.mul_pos (by decide) hn, hbytes, pow_dvd_pow 2 hk, pow_dvd_pow 2 (by omega), hdvd, hmin⟩
  by_cases hmax : efiPageMask ≤ maxAddress
  · exact ⟨noWrap_of_isHighest hmap hlt hr hmax hn.ne', isHighest_of_noWrap hmap hlt hr hmax hn.ne'⟩
  -- below the first page nothing fits, and no descriptor starts
  have hpage : efiPageMask = 4095 := rfl
  have hsmall : maxAddress < efiPageMask := not_le.mp hmax
  unfold coreFindFreePagesI
  rw [if_pos (.inl hsmall)]
  refine iff_of_true ⟨fun h => absurd rfl h, fun b hb => ?_⟩ (.inr ⟨.inl fun e he hlow => ?_,
    fun e he hwhole => ?_⟩)
  · obtain ⟨-, e, -, hfit⟩ := hb
    have := hfit.le_max
    unfold efiPageSize at this
    omega
  · have hmod := hmap.start_mod e he
    have hpos := hlow.pos
    have hstart := hlow.start_lt
    unfold endOfPage efiPageSize efiPageMask at *
    split_ifs at hstart <;> omega
  · have htop := hwhole.top
    unfold endOfPage efiPageSize efiPageMask at *
    split_ifs at htop <;> omega

/-- A free descriptor of 32 KiB in low memory, and a request for 64 KiB with that alignment. -/
def lowMap (start stop : ℕ) : List MemoryMap :=
  [⟨none, efiConventionalMemory, start, stop, 0⟩]

theorem isHighest_coreFindFreePagesI_low :
    IsHighest (lowMap 0x10000 0x2FFFF) (2 ^ 48 - 1) 0 16 (2 ^ 16) (coreFindFreePagesI (2 ^ 48 - 1)
        0 16 (2 ^ 16) (lowMap 0x10000 0x2FFFF)) ↔
      NoWrap (lowMap 0x10000 0x2FFFF) (2 ^ 48 - 1) 0 16 (2 ^ 16) := by
  refine isHighest_coreFindFreePagesI_iff _ _ _ _ 16 ⟨?_, ?_, ?_, ?_, ?_⟩ ?_ ?_ ?_ ?_ ?_ ?_ <;>
    decide

/-- Nothing fits in 32 KiB below 64 KiB, but the search finds the top of the address space. -/
theorem not_isHighest_low :
    PageMap (lowMap 0x1000 0x8FFF) ∧
      coreFindFreePagesI (2 ^ 48 - 1) 0 16 (2 ^ 16) (lowMap 0x1000 0x8FFF) = 2 ^ 64 - 0x10000 ∧
      ¬ IsHighest (lowMap 0x1000 0x8FFF) (2 ^ 48 - 1) 0 16 (2 ^ 16)
        (coreFindFreePagesI (2 ^ 48 - 1) 0 16 (2 ^ 16) (lowMap 0x1000 0x8FFF)) := by
  have hfound : coreFindFreePagesI (2 ^ 48 - 1) 0 16 (2 ^ 16) (lowMap 0x1000 0x8FFF) =
      2 ^ 64 - 0x10000 := by
    decide
  refine ⟨⟨?_, ?_, ?_, ?_, ?_⟩, hfound, fun hbest => ?_⟩
  iterate 5 decide
  rw [hfound] at hbest
  obtain ⟨-, e, -, hfit⟩ := hbest.1 (by decide)
  have := hfit.le_max
  unfold efiPageSize at this
  omega

end Edk2.Page
