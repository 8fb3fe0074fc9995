import Edk2.Lib.Segment
import Edk2.Mtrr.MemoryType

/-!
# Setting the type of a range

The array stays a list of ranges that tile the space with different types on both sides of each
border, and gets the new types, except in three kinds of calls: those of length zero, those where a
rest that has the new type is split off, and those where the array shrinks and the type of the rest
on the right is read after another range was moved there.
-/

namespace Edk2.Mtrr

open Bytes Segment

variable {r r' : ℕ → MtrrMemoryRange} {count count' capacity base length lo hi i j s e : ℕ}
  {type : MtrrMemoryCacheType} {l : List MtrrMemoryRange}

instance : Segment MtrrMemoryRange MtrrMemoryCacheType where
  lo x := x.baseAddress
  hi x := x.baseAddress + x.length - 1
  label x := x.type

/-- The ranges are contiguous from `lo` to `hi`, and neighbours with the same type are merged. -/
structure WellFormed (lo : ℕ) (l : List MtrrMemoryRange) (hi : ℕ) : Prop where
  tiles : Tiles lo l hi
  pos : ∀ x ∈ l, 0 < x.length
  merged : Coalesced l

lemma mem_bytesAt {x : MtrrMemoryRange} {start size : ℕ} :
    x ∈ bytesAt r start size ↔ ∃ i, start ≤ i ∧ i < start + size ∧ r i = x := by
  grind [Nat.add_sub_cancel', bytesAt]

lemma bytesAt_one (r : ℕ → MtrrMemoryRange) (i : ℕ) : bytesAt r i 1 = [r i] := rfl

lemma bytesAt_split (hse : s ≤ e) (he : e < count) :
    bytesAt r 0 count =
      bytesAt r 0 s ++ (bytesAt r s (e + 1 - s) ++ bytesAt r (e + 1) (count - e - 1)) := by
  have hcnt : count = s + ((e + 1 - s) + (count - e - 1)) := by omega
  conv_lhs => rw [hcnt, bytesAt_add, bytesAt_add, Nat.zero_add]
  rw [Nat.add_sub_cancel' (by omega : s ≤ e + 1)]

namespace WellFormed

variable (h : WellFormed lo (bytesAt r 0 count) hi)

include h

lemma length_pos (hlt : i < count) : 0 < (r i).length :=
  h.pos _ (mem_bytesAt.mpr ⟨i, Nat.zero_le _, by omega, rfl⟩)

lemma split (hse : s ≤ e) (he : e < count) :
    Tiles lo (bytesAt r 0 s) (r s).baseAddress ∧
      Tiles ((r e).baseAddress + (r e).length) (bytesAt r (e + 1) (count - e - 1)) hi := by
  have htil := h.tiles
  rw [bytesAt_split hse he] at htil
  obtain ⟨m₁, hpre, hrest⟩ := tiles_append.mp htil
  obtain ⟨m₂, hmid, hpost⟩ := tiles_append.mp hrest
  have hfst : bytesAt r s (e + 1 - s) = r s :: bytesAt r (s + 1) (e - s) := by
    rw [show e + 1 - s = 1 + (e - s) by omega, bytesAt_add, bytesAt_one]
    rfl
  have hlast : bytesAt r s (e + 1 - s) = bytesAt r s (e - s) ++ [r e] := by
    rw [show e + 1 - s = (e - s) + 1 by omega, bytesAt_add, bytesAt_one,
      show s + (e - s) = e by omega]
  have hlo : (r s).baseAddress = m₁ := by
    rw [hfst] at hmid
    exact hmid.1
  have hhi : (r e).baseAddress + (r e).length = m₂ := by
    rw [hlast] at hmid
    obtain ⟨m, -, hend⟩ := tiles_append.mp hmid
    have hpos := h.length_pos he
    have hstop : (r e).baseAddress + (r e).length - 1 + 1 = m₂ := hend.2.2
    omega
  rw [hlo, hhi]
  exact ⟨hpre, hpost⟩

lemma bounds (hlt : i < count) : lo ≤ (r i).baseAddress ∧ (r i).baseAddress + (r i).length ≤ hi :=
  ⟨(h.split le_rfl hlt).1.le, (h.split le_rfl hlt).2.le⟩

lemma stop_le (hij : i < j) (hj : j < count) :
    (r i).baseAddress + (r i).length ≤ (r j).baseAddress := by
  have hmem : r i ∈ bytesAt r 0 j := mem_bytesAt.mpr ⟨i, Nat.zero_le _, by omega, rfl⟩
  have hlt : (r i).baseAddress + (r i).length - 1 < (r j).baseAddress :=
    ((h.split le_rfl hj).1.bounds _ hmem).2.2
  have hpos := h.length_pos (hij.trans hj)
  omega

lemma stop_eq (hlt : i + 1 < count) :
    (r i).baseAddress + (r i).length = (r (i + 1)).baseAddress := by
  have hpost := (h.split le_rfl (by omega : i < count)).2
  rw [show count - i - 1 = 1 + (count - i - 2) by omega, bytesAt_add, bytesAt_one] at hpost
  exact hpost.1.symm

lemma index_eq {a : ℕ} (hi' : i < count) (hj : j < count) (hia : (r i).baseAddress ≤ a)
    (hia' : a < (r i).baseAddress + (r i).length) (hja : (r j).baseAddress ≤ a)
    (hja' : a < (r j).baseAddress + (r j).length) : i = j := by
  rcases Nat.lt_trichotomy i j with hlt | heq | hgt
  · have := h.stop_le hlt hj
    omega
  · exact heq
  · have := h.stop_le hgt hi'
    omega

lemma type_ne (hlt : i + 1 < count) : (r i).type ≠ (r (i + 1)).type := by
  have hcha := List.isChain_iff_getElem.mp h.merged i (by simpa using hlt)
  simpa [bytesAt, label] using hcha

lemma labelAt_eq {a : ℕ} (hlt : i < count) (hle : (r i).baseAddress ≤ a)
    (hgt : a < (r i).baseAddress + (r i).length) :
    labelAt (bytesAt r 0 count) a = some (r i).type :=
  h.tiles.labelAt_eq (mem_bytesAt.mpr ⟨i, Nat.zero_le _, by omega, rfl⟩)
    ⟨hle, Nat.le_sub_one_of_lt hgt⟩

lemma stop_def (hhi : hi < 2 ^ 64) (hlt : i < count) :
    (r i).stop = (r i).baseAddress + (r i).length :=
  u64_of_lt (Nat.lt_of_le_of_lt (h.bounds hlt).2 hhi)

end WellFormed

/-- The base address lies in the first range that was found. -/
structure StartsAt (r : ℕ → MtrrMemoryRange) (base : ℕ) (found : Indices) : Prop where
  le : (r found.startIndex).baseAddress ≤ base
  lt : base < (r found.startIndex).stop
  left_eq : found.lengthLeft = base - (r found.startIndex).baseAddress

/-- The limit lies in the last range that was found, or at its end. -/
structure EndsAt (r : ℕ → MtrrMemoryRange) (limit : ℕ) (found : Indices) : Prop where
  lt : (r found.endIndex).baseAddress < limit
  le : limit ≤ (r found.endIndex).stop
  right_eq : found.lengthRight = (r found.endIndex).stop - limit

variable {limit n index : ℕ} {found found' : Indices}

lemma noteStart_spec (hsta : found.startIndex = count ∨
      found.startIndex < index ∧ StartsAt r base found) :
    (noteStart r count base index found).startIndex = count ∨
      (noteStart r count base index found).startIndex < index + 1 ∧
        StartsAt r base (noteStart r count base index found) := by
  unfold noteStart
  split_ifs with hin
  · exact .inr ⟨Nat.lt_succ_self index, hin.2.1, hin.2.2, rfl⟩
  grind

lemma noteStart_endIndex : (noteStart r count base index found).endIndex = found.endIndex := by
  unfold noteStart
  split_ifs <;> rfl

lemma findIndices_spec (hend : found.endIndex = count)
    (hsta : found.startIndex = count ∨ found.startIndex < index ∧ StartsAt r base found)
    (hn : index + n = count) (h : findIndices r count base limit n index found = found')
    (hs : found'.startIndex ≠ count) (he : found'.endIndex ≠ count) :
    found'.startIndex ≤ found'.endIndex ∧ found'.endIndex < count ∧ StartsAt r base found' ∧
      EndsAt r limit found' := by
  induction n generalizing index found with
  | zero =>
    subst h
    exact absurd hend he
  | succ n ih =>
    have hsta' := noteStart_spec hsta
    have hend' : (noteStart r count base index found).endIndex = count :=
      noteStart_endIndex.trans hend
    unfold findIndices at h
    dsimp only at h
    generalize noteStart r count base index found = noted at h hsta' hend'
    split_ifs at h with hin
    · subst h
      rcases hsta' with hcnt | ⟨hlt, hat⟩
      · exact absurd hcnt hs
      · exact ⟨Nat.le_of_lt_succ hlt, by dsimp only; omega, ⟨hat.le, hat.lt, hat.left_eq⟩,
          hin.2.1, hin.2.2, rfl⟩
    · exact ih hend' hsta' (by omega) h

section

variable {p : Replacement} {lengthLeft lengthRight : ℕ}

/-- The type that the rest on the right gets. -/
def keptType (r : ℕ → MtrrMemoryRange) (count : ℕ) (p : Replacement)
    (lengthLeft lengthRight : ℕ) : MtrrMemoryCacheType :=
  let delta := (deltaCount p lengthLeft lengthRight).toNat
  if 0 < delta ∧ p.endIndex + delta < count then (r (p.endIndex + delta)).type
  else (r p.endIndex).type

/-- The ranges that are put in the place of the first to the last one. -/
def inserted (r : ℕ → MtrrMemoryRange) (count : ℕ) (type : MtrrMemoryCacheType) (p : Replacement)
    (lengthLeft lengthRight : ℕ) : List MtrrMemoryRange :=
  (if lengthLeft ≠ 0 then [{ r p.startIndex with length := lengthLeft }] else []) ++
    (⟨p.baseAddress, p.length, type⟩ ::
      if lengthRight ≠ 0 then
        [⟨u64 (p.baseAddress + p.length), lengthRight,
          keptType r count p lengthLeft lengthRight⟩]
      else [])

/-- The array after the move. -/
def moved (r : ℕ → MtrrMemoryRange) (count : ℕ) (p : Replacement) (lengthLeft lengthRight : ℕ) :
    ℕ → MtrrMemoryRange :=
  writeBytes r (p.endIndex + 1 - deltaCount p lengthLeft lengthRight).toNat
    (bytesAt r (p.endIndex + 1) (count - p.endIndex - 1))

lemma moved_endIndex_type (hse : p.startIndex ≤ p.endIndex) :
    (moved r count p lengthLeft lengthRight p.endIndex).type =
      keptType r count p lengthLeft lengthRight := by
  have hdel : (deltaCount p lengthLeft lengthRight).toNat ≤ p.endIndex := by
    unfold deltaCount
    split_ifs <;> omega
  unfold moved keptType
  dsimp only
  by_cases hpos : 0 < (deltaCount p lengthLeft lengthRight).toNat
  · have hto : (p.endIndex + 1 - deltaCount p lengthLeft lengthRight).toNat =
        p.endIndex + 1 - (deltaCount p lengthLeft lengthRight).toNat := by omega
    rw [hto]
    by_cases hin : p.endIndex + (deltaCount p lengthLeft lengthRight).toNat < count
    · rw [if_pos ⟨hpos, hin⟩]
      have hget := @getElem?_bytesAt _ r (p.endIndex + 1) (count - p.endIndex - 1)
        ((deltaCount p lengthLeft lengthRight).toNat - 1)
      rw [if_pos (by omega)] at hget
      rw [writeBytes_of_getElem? (by omega) (by
        rw [show p.endIndex - (p.endIndex + 1 - (deltaCount p lengthLeft lengthRight).toNat) =
          (deltaCount p lengthLeft lengthRight).toNat - 1 by omega]
        exact hget)]
      congr 2
      omega
    grind [writeBytes_of_ge, length_bytesAt]
  grind [writeBytes_of_lt]

lemma length_inserted (r : ℕ → MtrrMemoryRange) (count : ℕ) (type : MtrrMemoryCacheType)
    (p : Replacement) (lengthLeft lengthRight : ℕ) :
    ((inserted r count type p lengthLeft lengthRight).length : ℤ) =
      p.endIndex + 1 - deltaCount p lengthLeft lengthRight - p.startIndex := by
  unfold inserted deltaCount
  split_ifs <;> simp <;> omega

lemma replaceRanges_apply (hse : p.startIndex ≤ p.endIndex) (i : ℕ) :
    replaceRanges r count type p lengthLeft lengthRight i =
      if p.startIndex ≤ i then
        ((inserted r count type p lengthLeft lengthRight)[i - p.startIndex]?).getD
          (moved r count p lengthLeft lengthRight i)
      else moved r count p lengthLeft lengthRight i := by
  have hmov : lengthLeft ≠ 0 → moved r count p lengthLeft lengthRight p.startIndex =
      r p.startIndex := by
    intro hl
    apply writeBytes_of_lt
    simp only [deltaCount, if_neg hl]
    split_ifs <;> omega
  have htype : ((putLeft p.startIndex lengthLeft
      (moved r count p lengthLeft lengthRight)).1 p.endIndex).type =
        keptType r count p lengthLeft lengthRight := by
    rw [← moved_endIndex_type hse]
    unfold putLeft
    split_ifs with hl
    · dsimp only
      rw [writeBytes_singleton]
      split_ifs with heq
      · rw [heq]
      · rfl
    · rfl
  have hind : lengthRight ≠ 0 → (p.endIndex - deltaCount p lengthLeft lengthRight).toNat =
      p.startIndex + (if lengthLeft = 0 then 1 else 2) := by
    intro hr
    simp only [deltaCount, if_neg hr]
    split_ifs <;> omega
  have hunf : replaceRanges r count type p lengthLeft lengthRight =
      writeBytes (putRight p (p.endIndex - deltaCount p lengthLeft lengthRight).toNat lengthRight
        (putLeft p.startIndex lengthLeft (moved r count p lengthLeft lengthRight)).1)
        (putLeft p.startIndex lengthLeft (moved r count p lengthLeft lengthRight)).2
        [⟨p.baseAddress, p.length, type⟩] := rfl
  rw [hunf]
  unfold putRight inserted
  rw [htype]
  clear hunf htype
  generalize moved r count p lengthLeft lengthRight = m at hmov
  generalize keptType r count p lengthLeft lengthRight = kept
  generalize (p.endIndex - deltaCount p lengthLeft lengthRight).toNat = index at hind
  rcases Nat.lt_or_ge i p.startIndex with hlt | hge
  · have hne : ∀ k, i ≠ p.startIndex + k := fun k => by omega
    by_cases hl : lengthLeft = 0 <;> by_cases hr : lengthRight = 0 <;>
      simp [putLeft, hl, hr, hind, writeBytes_singleton, hne, hlt.ne, Nat.not_le.mpr hlt]
  · -- the inserted ranges are at most three
    obtain ⟨j, rfl⟩ := Nat.exists_eq_add_of_le hge
    rw [if_pos hge, Nat.add_sub_cancel_left]
    by_cases hl : lengthLeft = 0 <;> by_cases hr : lengthRight = 0 <;>
      rcases j with _ | _ | _ | j <;>
      simp [putLeft, hl, hr, hind, hmov, writeBytes_singleton, Nat.add_assoc]

lemma bytesAt_replaceRanges (hse : p.startIndex ≤ p.endIndex) (he : p.endIndex < count) :
    bytesAt (replaceRanges r count type p lengthLeft lengthRight) 0
        (count - deltaCount p lengthLeft lengthRight).toNat =
      bytesAt r 0 p.startIndex ++ (inserted r count type p lengthLeft lengthRight ++
        bytesAt r (p.endIndex + 1) (count - p.endIndex - 1)) := by
  have hlen := length_inserted r count type p lengthLeft lengthRight
  generalize hins : inserted r count type p lengthLeft lengthRight = ins at hlen ⊢
  have hsum : (count - deltaCount p lengthLeft lengthRight).toNat =
      p.startIndex + (ins.length + (count - p.endIndex - 1)) := by omega
  rw [hsum, bytesAt_add, bytesAt_add, Nat.zero_add]
  have hdest : (p.endIndex + 1 - deltaCount p lengthLeft lengthRight).toNat =
      p.startIndex + ins.length := by omega
  congr 1
  · apply bytesAt_congr
    intro i _ hi
    rw [replaceRanges_apply hse, if_neg (by omega), moved, hdest, writeBytes_of_lt (by omega)]
  congr 1
  · apply List.ext_getElem?
    grind [getElem?_bytesAt, replaceRanges_apply, Nat.add_sub_cancel_left, List.getElem?_eq_getElem,
      List.getElem?_eq_none]
  · rw [← @bytesAt_writeBytes_self _ r (p.startIndex + ins.length)
      (bytesAt r (p.endIndex + 1) (count - p.endIndex - 1)), length_bytesAt]
    apply bytesAt_congr
    intro i hle _
    rw [replaceRanges_apply hse, if_pos (by omega), hins, List.getElem?_eq_none (by omega), moved,
      hdest]
    rfl

end

/-! ### The replaced ranges -/

section

variable {p : Replacement} {lengthLeft lengthRight : ℕ}

/-- The ranges from the first to the last one are replaced: by the new range, which contains the
addresses from `base` on and beyond them only addresses that have the type already, and by the rests
on the left and on the right. -/
structure Placed (r : ℕ → MtrrMemoryRange) (count base length : ℕ) (type : MtrrMemoryCacheType)
    (p : Replacement) (lengthLeft lengthRight : ℕ) : Prop where
  le : p.startIndex ≤ p.endIndex
  lt : p.endIndex < count
  left : (r p.startIndex).baseAddress + lengthLeft = p.baseAddress
  right : p.baseAddress + p.length + lengthRight =
    (r p.endIndex).baseAddress + (r p.endIndex).length
  base_le : p.baseAddress ≤ base
  le_stop : base + length ≤ p.baseAddress + p.length
  mergedLeft : p.baseAddress < base → (r p.startIndex).type = type ∧
    base ≤ (r p.startIndex).baseAddress + (r p.startIndex).length
  mergedRight : base + length < p.baseAddress + p.length → (r p.endIndex).type = type ∧
    (r p.endIndex).baseAddress ≤ base + length
  left_lt : lengthLeft ≠ 0 → p.baseAddress < (r p.startIndex).baseAddress + (r p.startIndex).length
  right_lt : lengthRight ≠ 0 → (r p.endIndex).baseAddress < p.baseAddress + p.length

/-- No further range in front is to be merged. -/
def NoPrevious (r : ℕ → MtrrMemoryRange) (type : MtrrMemoryCacheType) (p : Replacement)
    (lengthLeft : ℕ) : Prop :=
  lengthLeft = 0 → 0 < p.startIndex → (r (p.startIndex - 1)).type ≠ type

/-- No further range behind is to be merged. -/
def NoNext (r : ℕ → MtrrMemoryRange) (count : ℕ) (type : MtrrMemoryCacheType) (p : Replacement)
    (lengthRight : ℕ) : Prop :=
  lengthRight = 0 → p.endIndex + 1 < count → (r (p.endIndex + 1)).type ≠ type

lemma placed_mergePrevious (h : WellFormed lo (bytesAt r 0 count) hi) (hhi : hi < 2 ^ 64)
    (hp : Placed r count base length type p lengthLeft lengthRight) (hbase : p.baseAddress = base) :
    Placed r count base length type (mergePrevious r type lengthLeft p) lengthLeft lengthRight ∧
      NoPrevious r type (mergePrevious r type lengthLeft p) lengthLeft ∧
        (mergePrevious r type lengthLeft p).baseAddress +
          (mergePrevious r type lengthLeft p).length = p.baseAddress + p.length := by
  unfold mergePrevious
  split_ifs with hmer
  · obtain ⟨hpos, hzero, htype⟩ := hmer
    obtain ⟨k, hk⟩ : ∃ k, p.startIndex = k + 1 := Nat.exists_eq_succ_of_ne_zero hpos
    have hle := hp.le
    have hlt := hp.lt
    have hleft := hp.left
    have hrig := hp.right
    have hstop := hp.le_stop
    have hnext : (r k).baseAddress + (r k).length = (r (k + 1)).baseAddress :=
      h.stop_eq (by omega)
    have hend := (h.bounds hlt).2
    rw [hk] at hleft
    have hk1 : p.startIndex - 1 = k := by omega
    rw [hk1] at htype ⊢
    have hsub : sub64 p.baseAddress (r k).length = (r k).baseAddress := by
      rw [sub64_of_le (by omega) (by omega)]
      omega
    have hsum : u64 (p.length + (r k).length) = p.length + (r k).length := u64_of_lt (by omega)
    rw [hsub, hsum]
    refine ⟨⟨by dsimp only; omega, hlt, by dsimp only; omega, by dsimp only; omega,
      by dsimp only; omega, by dsimp only; omega, fun _ => ⟨htype, by dsimp only; omega⟩,
      fun hmore => hp.mergedRight (by dsimp only at hmore; omega), fun hne => absurd hzero hne,
      fun hne => ?_⟩, fun _ hk0 => ?_, by dsimp only; omega⟩
    · have := hp.right_lt hne
      dsimp only
      omega
    · have hne := h.type_ne (i := k - 1) (by dsimp only at hk0; omega)
      grind
  · exact ⟨hp, fun hzero hpos htype => hmer ⟨by omega, hzero, htype⟩, rfl⟩

lemma placed_mergeNext (h : WellFormed lo (bytesAt r 0 count) hi) (hhi : hi < 2 ^ 64)
    (hp : Placed r count base length type p lengthLeft lengthRight)
    (hstop : p.baseAddress + p.length = base + length) (hnp : NoPrevious r type p lengthLeft) :
    Placed r count base length type (mergeNext r count type lengthRight p) lengthLeft lengthRight ∧
      NoPrevious r type (mergeNext r count type lengthRight p) lengthLeft ∧
        NoNext r count type (mergeNext r count type lengthRight p) lengthRight := by
  have hle := hp.le
  have hlt := hp.lt
  unfold mergeNext
  split_ifs with hmer
  · obtain ⟨hlast, hzero, htype⟩ := hmer
    have hrig := hp.right
    have hbase := hp.base_le
    have hnext : (r p.endIndex).baseAddress + (r p.endIndex).length =
        (r (p.endIndex + 1)).baseAddress := h.stop_eq (by omega)
    have hend := (h.bounds (show p.endIndex + 1 < count by omega)).2
    have hsum : u64 (p.length + (r (p.endIndex + 1)).length) =
        p.length + (r (p.endIndex + 1)).length := u64_of_lt (by omega)
    rw [hsum]
    refine ⟨⟨by dsimp only; omega, by dsimp only; omega, hp.left, by dsimp only; omega, hbase,
      by dsimp only; omega, hp.mergedLeft, fun _ => ⟨htype, by dsimp only; omega⟩, hp.left_lt,
      fun hne => absurd hzero hne⟩, hnp, fun _ hlt' => ?_⟩
    rw [← htype]
    exact (h.type_ne hlt').symm
  · exact ⟨hp, hnp, fun hzero hlt' htype => hmer ⟨by omega, hzero, htype⟩⟩

/-- The ranges of the new array. -/
def rewritten (r : ℕ → MtrrMemoryRange) (count : ℕ) (type : MtrrMemoryCacheType) (p : Replacement)
    (lengthLeft lengthRight : ℕ) : List MtrrMemoryRange :=
  bytesAt r 0 p.startIndex ++ (inserted r count type p lengthLeft lengthRight ++
    bytesAt r (p.endIndex + 1) (count - p.endIndex - 1))

lemma mem_inserted {x : MtrrMemoryRange} : x ∈ inserted r count type p lengthLeft lengthRight ↔
    (lengthLeft ≠ 0 ∧ x = { r p.startIndex with length := lengthLeft }) ∨
      x = ⟨p.baseAddress, p.length, type⟩ ∨
        lengthRight ≠ 0 ∧ x = ⟨u64 (p.baseAddress + p.length), lengthRight,
          keptType r count p lengthLeft lengthRight⟩ := by
  unfold inserted
  split_ifs with hl hr <;> simp [*]

lemma Placed.length_le (hp : Placed r count base length type p lengthLeft lengthRight) :
    length ≤ p.length := by
  have := hp.base_le
  have := hp.le_stop
  omega

namespace Placed

variable (hp : Placed r count base length type p lengthLeft lengthRight)
  (h : WellFormed lo (bytesAt r 0 count) hi)

include hp h

lemma stop_le : p.baseAddress + p.length ≤ hi := by
  have := (h.bounds hp.lt).2
  have := hp.right
  omega

lemma tiles_inserted (hhi : hi < 2 ^ 64) (hpos : 0 < length) :
    Tiles (r p.startIndex).baseAddress (inserted r count type p lengthLeft lengthRight)
      ((r p.endIndex).baseAddress + (r p.endIndex).length) := by
  have hleft := hp.left
  have hrig := hp.right
  have hlen := hp.length_le
  have hstop : u64 (p.baseAddress + p.length) = p.baseAddress + p.length :=
    u64_of_lt (Nat.lt_of_le_of_lt (hp.stop_le h) hhi)
  have hnew : Tiles p.baseAddress ((⟨p.baseAddress, p.length, type⟩ : MtrrMemoryRange) ::
      if lengthRight ≠ 0 then
        [⟨u64 (p.baseAddress + p.length), lengthRight, keptType r count p lengthLeft lengthRight⟩]
      else []) ((r p.endIndex).baseAddress + (r p.endIndex).length) := by
    refine ⟨rfl, Nat.le_sub_one_of_lt (Nat.lt_add_of_pos_right (hpos.trans_le hlen)), ?_⟩
    have hend : p.baseAddress + p.length - 1 + 1 = p.baseAddress + p.length := by omega
    change Tiles (p.baseAddress + p.length - 1 + 1) _ _
    rw [hend, hstop]
    split_ifs with hr
    · exact ⟨rfl, Nat.le_sub_one_of_lt (Nat.lt_add_of_pos_right (Nat.pos_of_ne_zero hr)),
        by change p.baseAddress + p.length + lengthRight - 1 + 1 = _; omega⟩
    · change p.baseAddress + p.length = _
      omega
  unfold inserted
  by_cases hl : lengthLeft ≠ 0
  · rw [if_pos hl]
    refine ⟨rfl, Nat.le_sub_one_of_lt (Nat.lt_add_of_pos_right (Nat.pos_of_ne_zero hl)), ?_⟩
    have hend : (r p.startIndex).baseAddress + lengthLeft - 1 + 1 = p.baseAddress := by omega
    change Tiles ((r p.startIndex).baseAddress + lengthLeft - 1 + 1) _ _
    rw [hend]
    exact hnew
  grind

lemma tiles_rewritten (hhi : hi < 2 ^ 64) (hpos : 0 < length) :
    Tiles lo (rewritten r count type p lengthLeft lengthRight) hi :=
  (h.split hp.le hp.lt).1.append ((hp.tiles_inserted h hhi hpos).append (h.split hp.le hp.lt).2)

lemma pos_rewritten (hpos : 0 < length) :
    ∀ x ∈ rewritten r count type p lengthLeft lengthRight, 0 < x.length := by
  have hlen := hp.length_le
  have hle := hp.le
  have hlt := hp.lt
  intro x hx
  rcases List.mem_append.mp hx with hx | hx
  · obtain ⟨i, -, hi', rfl⟩ := mem_bytesAt.mp hx
    exact h.length_pos (by omega)
  · rcases List.mem_append.mp hx with hx | hx
    · rcases mem_inserted.mp hx with ⟨hne, rfl⟩ | rfl | ⟨hne, rfl⟩
      · exact Nat.pos_of_ne_zero hne
      · exact hpos.trans_le hlen
      · exact Nat.pos_of_ne_zero hne
    · obtain ⟨i, -, hi', rfl⟩ := mem_bytesAt.mp hx
      exact h.length_pos (by omega)

lemma labelAt_right (hhi : hi < 2 ^ 64) (hpos : 0 < length) (hr : lengthRight ≠ 0) :
    labelAt (rewritten r count type p lengthLeft lengthRight) (p.baseAddress + p.length) =
        some (keptType r count p lengthLeft lengthRight) ∧
      labelAt (bytesAt r 0 count) (p.baseAddress + p.length) = some (r p.endIndex).type := by
  have hrig := hp.right
  have hlt := hp.right_lt hr
  have hstop : u64 (p.baseAddress + p.length) = p.baseAddress + p.length :=
    u64_of_lt (Nat.lt_of_le_of_lt (hp.stop_le h) hhi)
  constructor
  · have hmem : (⟨u64 (p.baseAddress + p.length), lengthRight,
        keptType r count p lengthLeft lengthRight⟩ : MtrrMemoryRange) ∈
          rewritten r count type p lengthLeft lengthRight :=
      List.mem_append_right _ (List.mem_append_left _ (mem_inserted.mpr (.inr (.inr ⟨hr, rfl⟩))))
    refine (hp.tiles_rewritten h hhi hpos).labelAt_eq hmem ⟨hstop.le, ?_⟩
    change p.baseAddress + p.length ≤ u64 (p.baseAddress + p.length) + lengthRight - 1
    omega
  · exact h.labelAt_eq hp.lt (by omega) (by omega)

lemma labelAt_rewritten (hhi : hi < 2 ^ 64) (hpos : 0 < length)
    (hkept : lengthRight ≠ 0 → keptType r count p lengthLeft lengthRight = (r p.endIndex).type)
    (a : ℕ) :
    labelAt (rewritten r count type p lengthLeft lengthRight) a =
      if base ≤ a ∧ a < base + length then some type else labelAt (bytesAt r 0 count) a := by
  have htil := hp.tiles_rewritten h hhi hpos
  have hle := hp.le
  have hlt := hp.lt
  have hleft := hp.left
  have hrig := hp.right
  have hbase := hp.base_le
  have hstop := hp.le_stop
  have hlo := (h.bounds (Nat.lt_of_le_of_lt hle hlt)).1
  have hend := (h.bounds hlt).2
  by_cases hout : a < lo ∨ hi ≤ a
  · rw [htil.labelAt_eq_none hout, h.tiles.labelAt_eq_none hout, if_neg (by omega)]
  obtain ⟨x, hx, hcon⟩ := htil.exists_contains (by omega : lo ≤ a) (by omega)
  rw [htil.labelAt_eq hx hcon]
  obtain ⟨hxle, hxle'⟩ := hcon
  rcases List.mem_append.mp hx with hx | hx
  · obtain ⟨i, -, hi', rfl⟩ := mem_bytesAt.mp hx
    have hpos' := h.length_pos (show i < count by omega)
    have hbef := h.stop_le (show i < p.startIndex by omega) (by omega)
    change (r i).baseAddress ≤ a at hxle
    change a ≤ (r i).baseAddress + (r i).length - 1 at hxle'
    rw [if_neg (by omega), h.labelAt_eq (show i < count by omega) hxle (by omega)]
    rfl
  rcases List.mem_append.mp hx with hx | hx
  · rcases mem_inserted.mp hx with ⟨hne, rfl⟩ | rfl | ⟨hne, rfl⟩
    · -- the rest on the left
      have hin := hp.left_lt hne
      change (r p.startIndex).baseAddress ≤ a at hxle
      change a ≤ (r p.startIndex).baseAddress + lengthLeft - 1 at hxle'
      rw [if_neg (by omega), h.labelAt_eq (by omega) hxle (by omega)]
      rfl
    · -- the new range
      change p.baseAddress ≤ a at hxle
      change a ≤ p.baseAddress + p.length - 1 at hxle'
      split_ifs with hin
      · rfl
      · rcases Nat.lt_or_ge a base with hbef | haft
        · obtain ⟨htype, hlt'⟩ := hp.mergedLeft (by omega)
          rw [h.labelAt_eq (Nat.lt_of_le_of_lt hle hlt) (by omega) (by omega), htype]
          rfl
        · obtain ⟨htype, hle'⟩ := hp.mergedRight (by omega)
          rw [h.labelAt_eq hlt (by omega) (by omega), htype]
          rfl
    · -- the rest on the right
      have hin := hp.right_lt hne
      have hsto' : u64 (p.baseAddress + p.length) = p.baseAddress + p.length :=
        u64_of_lt (Nat.lt_of_le_of_lt (hp.stop_le h) hhi)
      change u64 (p.baseAddress + p.length) ≤ a at hxle
      change a ≤ u64 (p.baseAddress + p.length) + lengthRight - 1 at hxle'
      rw [hsto'] at hxle hxle'
      rw [if_neg (by omega), h.labelAt_eq hlt (by omega) (by omega), ← hkept hne]
      rfl
  · obtain ⟨i, hle', hi', rfl⟩ := mem_bytesAt.mp hx
    have hpos' := h.length_pos (show i < count by omega)
    have haft := h.stop_le (show p.endIndex < i by omega) (by omega)
    change (r i).baseAddress ≤ a at hxle
    change a ≤ (r i).baseAddress + (r i).length - 1 at hxle'
    rw [if_neg (by omega), h.labelAt_eq (show i < count by omega) hxle (by omega)]
    rfl

end Placed

lemma head?_bytesAt {start size : ℕ} {x : MtrrMemoryRange}
    (hx : x ∈ (bytesAt r start size).head?) : 0 < size ∧ r start = x := by
  cases size with
  | zero => cases hx
  | succ size =>
    rw [Nat.add_comm, bytesAt_add, bytesAt_one] at hx
    exact ⟨Nat.succ_pos _, Option.some.inj hx⟩

lemma getLast?_bytesAt {size : ℕ} {x : MtrrMemoryRange}
    (hx : x ∈ (bytesAt r 0 size).getLast?) : 0 < size ∧ r (size - 1) = x := by
  cases size with
  | zero => cases hx
  | succ size =>
    rw [bytesAt_add, Nat.zero_add, bytesAt_one, List.getLast?_concat] at hx
    exact ⟨Nat.succ_pos _, Option.some.inj hx⟩

lemma head?_inserted {x : MtrrMemoryRange}
    (hx : x ∈ (inserted r count type p lengthLeft lengthRight ++ l).head?) :
    x.type = if lengthLeft ≠ 0 then (r p.startIndex).type else type := by
  grind [inserted]

lemma getLast?_inserted {x : MtrrMemoryRange}
    (hx : x ∈ (inserted r count type p lengthLeft lengthRight).getLast?) :
    x.type = if lengthRight ≠ 0 then keptType r count p lengthLeft lengthRight else type := by
  grind [inserted]

lemma ne_of_coalesced (hc : Coalesced (rewritten r count type p lengthLeft lengthRight)) :
    (lengthLeft ≠ 0 → (r p.startIndex).type ≠ type) ∧
      (lengthRight ≠ 0 → keptType r count p lengthLeft lengthRight ≠ type) := by
  have hins := (List.isChain_append.mp (List.isChain_append.mp hc).2.1).1
  unfold inserted at hins
  constructor
  · intro hl
    rw [if_pos hl] at hins
    exact (List.isChain_cons_cons.mp hins).1
  · intro hr
    rw [if_pos hr] at hins
    exact ((List.isChain_cons_cons.mp (List.isChain_append.mp hins).2.1).1).symm

lemma coalesced_rewritten (h : WellFormed lo (bytesAt r 0 count) hi)
    (hp : Placed r count base length type p lengthLeft lengthRight)
    (hprev : NoPrevious r type p lengthLeft) (hnext : NoNext r count type p lengthRight)
    (hleft : lengthLeft ≠ 0 → (r p.startIndex).type ≠ type)
    (hrig : lengthRight ≠ 0 → (r p.endIndex).type ≠ type)
    (hkept : lengthRight ≠ 0 → keptType r count p lengthLeft lengthRight = (r p.endIndex).type) :
    Coalesced (rewritten r count type p lengthLeft lengthRight) := by
  have hmer := h.merged
  rw [bytesAt_split hp.le hp.lt] at hmer
  obtain ⟨hpre, hrest, -⟩ := List.isChain_append.mp hmer
  obtain ⟨-, hpost, -⟩ := List.isChain_append.mp hrest
  have hle := hp.le
  have hlt := hp.lt
  have hins : Coalesced (inserted r count type p lengthLeft lengthRight) := by
    have hnew : Coalesced ((⟨p.baseAddress, p.length, type⟩ : MtrrMemoryRange) ::
        if lengthRight ≠ 0 then
          [⟨u64 (p.baseAddress + p.length), lengthRight, keptType r count p lengthLeft lengthRight⟩]
        else []) := by
      by_cases hr : lengthRight ≠ 0
      · rw [if_pos hr]
        refine List.isChain_cons_cons.mpr ⟨?_, List.isChain_singleton _⟩
        change type ≠ keptType r count p lengthLeft lengthRight
        rw [hkept hr]
        exact (hrig hr).symm
      · rw [if_neg hr]
        exact List.isChain_singleton _
    unfold inserted
    by_cases hl : lengthLeft ≠ 0
    · rw [if_pos hl]
      exact List.isChain_cons_cons.mpr ⟨hleft hl, hnew⟩
    · rw [if_neg hl]
      exact hnew
  refine List.isChain_append.mpr ⟨hpre, List.isChain_append.mpr ⟨hins, hpost, ?_⟩, ?_⟩
  · intro x hx y hy
    obtain ⟨hsize, rfl⟩ := head?_bytesAt hy
    change x.type ≠ (r (p.endIndex + 1)).type
    rw [getLast?_inserted hx]
    split_ifs with hr
    · rw [hkept hr]
      exact h.type_ne (by omega)
    · exact (hnext (not_not.mp hr) (by omega)).symm
  · intro x hx y hy
    obtain ⟨hsize, rfl⟩ := getLast?_bytesAt hx
    change (r (p.startIndex - 1)).type ≠ y.type
    rw [head?_inserted hy]
    split_ifs with hl
    · have hne := h.type_ne (i := p.startIndex - 1) (by omega)
      rwa [Nat.sub_add_cancel hsize] at hne
    · exact hprev (not_not.mp hl) hsize

end

/-! ### The call -/

/-- By how many ranges the array shrinks, if a rest on the right is kept. -/
def shrinks (r : ℕ → MtrrMemoryRange) (base : ℕ) (type : MtrrMemoryCacheType) (s e : ℕ) : ℕ :=
  e - s + (if (r s).baseAddress = base then 1 else 0) +
    (if (r s).baseAddress = base ∧ 0 < s ∧ (r (s - 1)).type = type then 1 else 0) - 2

/-- The call is harmless: its length is not zero, no rest of a range has the new type, and if a rest
on the right is kept while the array shrinks, the range that is moved to the place of the last range
has the same type. -/
structure Harmless (r : ℕ → MtrrMemoryRange) (count base length : ℕ)
    (type : MtrrMemoryCacheType) : Prop where
  pos : 0 < length
  left : ∀ s < count, (r s).baseAddress < base → base < (r s).baseAddress + (r s).length →
    (r s).type ≠ type
  right : ∀ e < count, (r e).baseAddress < base + length →
    base + length < (r e).baseAddress + (r e).length → (r e).type ≠ type
  kept : ∀ s < count, ∀ e < count, (r s).baseAddress ≤ base →
    base < (r s).baseAddress + (r s).length → (r e).baseAddress < base + length →
      base + length < (r e).baseAddress + (r e).length → 0 < shrinks r base type s e →
        e + shrinks r base type s e < count →
          (r (e + shrinks r base type s e)).type = (r e).type

/-- The array is well-formed over the same space, and the addresses of the range have the type while
all others keep theirs. -/
structure Sets (lo hi : ℕ) (r : ℕ → MtrrMemoryRange) (count base length : ℕ)
    (type : MtrrMemoryCacheType) (r' : ℕ → MtrrMemoryRange) (count' : ℕ) : Prop where
  wellFormed : WellFormed lo (bytesAt r' 0 count') hi
  types : ∀ a, labelAt (bytesAt r' 0 count') a =
    if base ≤ a ∧ a < base + length then some type else labelAt (bytesAt r 0 count) a

/-- A call that succeeds replaces the ranges with the base address and with the limit, and those
between them. -/
lemma exists_placed (h : WellFormed lo (bytesAt r 0 count) hi) (hhi : hi < 2 ^ 64)
    (hin : base + length ≤ hi)
    (hrun : mtrrLibSetMemoryType r capacity count base length type = .ok (.success, r', count')) :
    ∃ s e, s ≤ e ∧ e < count ∧ (r s).baseAddress ≤ base ∧ base < (r s).baseAddress + (r s).length ∧
      (r e).baseAddress < base + length ∧ base + length ≤ (r e).baseAddress + (r e).length ∧
      ∃ p, p = mergeNext r count type ((r e).baseAddress + (r e).length - (base + length))
          (mergePrevious r type (base - (r s).baseAddress) ⟨s, e, base, length⟩) ∧
        bytesAt r' 0 count' = rewritten r count type p (base - (r s).baseAddress)
          ((r e).baseAddress + (r e).length - (base + length)) ∧
        Placed r count base length type p (base - (r s).baseAddress)
          ((r e).baseAddress + (r e).length - (base + length)) ∧
        NoPrevious r type p (base - (r s).baseAddress) ∧
        NoNext r count type p ((r e).baseAddress + (r e).length - (base + length)) := by
  have hlim : u64 (base + length) = base + length := u64_of_lt (Nat.lt_of_le_of_lt hin hhi)
  unfold mtrrLibSetMemoryType at hrun
  rw [hlim] at hrun
  dsimp only at hrun
  generalize hfnd : findIndices r count base (base + length) count 0 ⟨count, count, 0, 0⟩ = found
    at hrun
  split_ifs at hrun with hass hsame hcap
  · cases hrun
  · cases hrun
  push Not at hass
  obtain ⟨hle, hlt, hsta, hend⟩ :=
    findIndices_spec (show (⟨count, count, 0, 0⟩ : Indices).endIndex = count from rfl) (.inl rfl)
      (Nat.zero_add count) hfnd hass.1 hass.2
  obtain ⟨s, e, lengthLeft, lengthRight⟩ := found
  dsimp only at hle hlt hrun
  have hs := hsta.lt
  have he := hend.le
  have hleft := hsta.left_eq
  have hrig := hend.right_eq
  dsimp only at hs he hleft hrig
  rw [h.stop_def hhi (by omega)] at hs
  rw [h.stop_def hhi hlt] at he hrig
  subst hleft hrig
  have hpla : Placed r count base length type ⟨s, e, base, length⟩ (base - (r s).baseAddress)
      ((r e).baseAddress + (r e).length - (base + length)) :=
    ⟨hle, hlt, Nat.add_sub_cancel' hsta.le, Nat.add_sub_cancel' he, le_rfl, le_rfl,
      fun hlt => absurd hlt (lt_irrefl _), fun hlt => absurd hlt (lt_irrefl _), fun _ => hs,
      fun _ => hend.lt⟩
  obtain ⟨hpla₁, hpre, hstop⟩ := placed_mergePrevious h hhi hpla rfl
  obtain ⟨hpla₂, hpre₂, hnext⟩ := placed_mergeNext h hhi hpla₁ hstop hpre
  refine ⟨s, e, hle, hlt, hsta.le, hs, hend.lt, he, _, rfl, ?_, hpla₂, hpre₂, hnext⟩
  cases hrun
  exact bytesAt_replaceRanges hpla₂.le hpla₂.lt

section

variable {p : Replacement} {lengthRight : ℕ}

lemma mergeNext_of_ne (hr : lengthRight ≠ 0) : mergeNext r count type lengthRight p = p :=
  if_neg fun h => hr h.2.1

lemma mergePrevious_of_ne {lengthLeft : ℕ} (hl : lengthLeft ≠ 0) :
    mergePrevious r type lengthLeft p = p :=
  if_neg fun h => hl h.2.1

lemma mergeNext_startIndex : (mergeNext r count type lengthRight p).startIndex = p.startIndex := by
  unfold mergeNext
  split_ifs <;> rfl

lemma keptType_eq (hse : s ≤ e) (hle : (r s).baseAddress ≤ base)
    (hp : p = mergePrevious r type (base - (r s).baseAddress) ⟨s, e, base, length⟩)
    (hr : lengthRight ≠ 0) :
    keptType r count p (base - (r s).baseAddress) lengthRight =
      if 0 < shrinks r base type s e ∧ e + shrinks r base type s e < count then
        (r (e + shrinks r base type s e)).type
      else (r e).type := by
  have hzero : base - (r s).baseAddress = 0 ↔ (r s).baseAddress = base := by omega
  have hend : p.endIndex = e := by
    rw [hp]
    unfold mergePrevious
    split_ifs <;> rfl
  have hdel : (deltaCount p (base - (r s).baseAddress) lengthRight).toNat =
      shrinks r base type s e := by
    have hsta : p.startIndex =
        s - if (r s).baseAddress = base ∧ 0 < s ∧ (r (s - 1)).type = type then 1 else 0 := by
      rw [hp]
      unfold mergePrevious
      simp only [hzero]
      by_cases hmer : (r s).baseAddress = base ∧ 0 < s ∧ (r (s - 1)).type = type
      · rw [if_pos ⟨Nat.ne_of_gt hmer.2.1, hmer.1, hmer.2.2⟩, if_pos hmer]
      · rw [if_neg fun h => hmer ⟨h.2.1, Nat.pos_of_ne_zero h.1, h.2.2⟩, if_neg hmer]
        rfl
    unfold deltaCount shrinks
    simp only [if_neg hr, hsta, hend, hzero]
    split_ifs <;> omega
  unfold keptType
  dsimp only
  rw [hdel, hend]

end

/-- A call that succeeds sets the type if and only if it is harmless. -/
theorem sets_mtrrLibSetMemoryType_iff (r r' : ℕ → MtrrMemoryRange)
    (capacity count count' base length lo hi : ℕ) (type : MtrrMemoryCacheType)
    (h : WellFormed lo (bytesAt r 0 count) hi) (hhi : hi < 2 ^ 64) (hin : base + length ≤ hi)
    (hrun : mtrrLibSetMemoryType r capacity count base length type =
      .ok (.success, r', count')) :
    Sets lo hi r count base length type r' count' ↔ Harmless r count base length type := by
  obtain ⟨s, e, hse, he, hsle, hslt, helt, hele, p, hp, hlist, hplaced, hprevious, hnext⟩ :=
    exists_placed h hhi hin hrun
  have hs : s < count := Nat.lt_of_le_of_lt hse he
  -- the rest on the left, if there is one, is of the range with the base address
  have hstart : (base - (r s).baseAddress) ≠ 0 → p.startIndex = s := by
    intro hl
    rw [hp, mergeNext_startIndex, mergePrevious_of_ne hl]
  have hright : (r e).baseAddress + (r e).length - (base + length) ≠ 0 →
      p = mergePrevious r type (base - (r s).baseAddress) ⟨s, e, base, length⟩ := by
    intro hr
    rw [hp, mergeNext_of_ne hr]
  have hend : (r e).baseAddress + (r e).length - (base + length) ≠ 0 → p.endIndex = e := by
    intro hr
    rw [hright hr]
    unfold mergePrevious
    split_ifs <;> rfl
  constructor
  · rintro ⟨hwf, htypes⟩
    rw [hlist] at hwf htypes
    have hpos : 0 < length := by
      by_contra hzero
      have hes : s = e := by
        rcases Nat.lt_or_eq_of_le hse with hlt | heq
        · have := h.stop_le hlt he
          omega
        · exact heq
      subst hes
      have hl : base - (r s).baseAddress ≠ 0 := by omega
      have hr : (r s).baseAddress + (r s).length - (base + length) ≠ 0 := by omega
      have hnew := hwf.pos ⟨p.baseAddress, p.length, type⟩
        (List.mem_append_right _ (List.mem_append_left _ (mem_inserted.mpr (.inr (.inl rfl)))))
      rw [hright hr, mergePrevious_of_ne hl] at hnew
      exact hzero hnew
    obtain ⟨hne₁, hne₂⟩ := ne_of_coalesced hwf.merged
    have hkept : (r e).baseAddress + (r e).length - (base + length) ≠ 0 →
        keptType r count p (base - (r s).baseAddress)
          ((r e).baseAddress + (r e).length - (base + length)) = (r e).type := by
      intro hr
      obtain ⟨hnew, hold⟩ := hplaced.labelAt_right h hhi hpos hr
      have hall := htypes (p.baseAddress + p.length)
      have hstop := hplaced.le_stop
      rw [hnew, if_neg (by omega), hold, hend hr] at hall
      exact Option.some.inj hall
    refine ⟨hpos, fun i hi' hlt hgt => ?_, fun i hi' hlt hgt => ?_,
      fun i hi' j hj hle hlt hlt' hgt => ?_⟩
    · obtain rfl : s = i := h.index_eq hs hi' hsle hslt hlt.le hgt
      have hl : base - (r s).baseAddress ≠ 0 := by omega
      have hne := hne₁ hl
      rwa [hstart hl] at hne
    · obtain rfl : e = i := h.index_eq (a := base + length - 1) he hi' (by omega) (by omega)
        (by omega) (by omega)
      have hr : (r e).baseAddress + (r e).length - (base + length) ≠ 0 := by omega
      have hne := hne₂ hr
      rwa [hkept hr] at hne
    · obtain rfl : s = i := h.index_eq hs hi' hsle hslt hle hlt
      obtain rfl : e = j := h.index_eq (a := base + length - 1) he hj (by omega) (by omega)
        (by omega) (by omega)
      intro hshrinks hin'
      have hr : (r e).baseAddress + (r e).length - (base + length) ≠ 0 := by omega
      have hk := hkept hr
      rwa [keptType_eq hse hsle (hright hr) hr, if_pos ⟨hshrinks, hin'⟩] at hk
  · rintro ⟨hpos, hleft, hright', hmoved⟩
    have hkept : (r e).baseAddress + (r e).length - (base + length) ≠ 0 →
        keptType r count p (base - (r s).baseAddress)
          ((r e).baseAddress + (r e).length - (base + length)) = (r p.endIndex).type := by
      intro hr
      rw [keptType_eq hse hsle (hright hr) hr, hend hr]
      split_ifs with hshrinks
      · exact hmoved s hs e he hsle hslt helt (by omega) hshrinks.1 hshrinks.2
      · rfl
    have hl : base - (r s).baseAddress ≠ 0 → (r p.startIndex).type ≠ type := by
      intro hl
      rw [hstart hl]
      exact hleft s hs (by omega) hslt
    have hr : (r e).baseAddress + (r e).length - (base + length) ≠ 0 →
        (r p.endIndex).type ≠ type := by
      intro hr
      rw [hend hr]
      exact hright' e he helt (by omega)
    have hmerged := coalesced_rewritten h hplaced hprevious hnext hl hr hkept
    refine ⟨?_, ?_⟩
    · rw [hlist]
      exact ⟨hplaced.tiles_rewritten h hhi hpos, hplaced.pos_rewritten h hpos, hmerged⟩
    · rw [hlist]
      exact hplaced.labelAt_rewritten h hhi hpos hkept

/-- Five ranges of ten bytes each. -/
def sampleRanges (i : ℕ) : MtrrMemoryRange :=
  ⟨10 * i, 10, if i % 2 = 0 then .uncacheable else .writeBack⟩

lemma wellFormed_sampleRanges : WellFormed 0 (bytesAt sampleRanges 0 5) 50 where
  tiles := ⟨rfl, by decide, rfl, by decide, rfl, by decide, rfl, by decide, rfl, by decide, rfl⟩
  pos := by decide
  merged := .cons_cons (by decide) (.cons_cons (by decide) (.cons_cons (by decide)
    (.cons_cons (by decide) (.singleton _))))

/-- A range from the middle of the first range to the middle of the second one. -/
theorem sets_sampleRanges : ∃ r' count',
    mtrrLibSetMemoryType sampleRanges 8 5 5 10 .writeThrough = .ok (.success, r', count') ∧
      Sets 0 50 sampleRanges 5 5 10 .writeThrough r' count' := by
  refine ⟨_, _, rfl, (sets_mtrrLibSetMemoryType_iff _ _ 8 5 _ 5 10 0 50 .writeThrough
    wellFormed_sampleRanges (by decide) (by decide) rfl).mpr ⟨by decide, by decide, by decide, ?_⟩⟩
  intro s _ e _ hsle hslt helt hegt hshrinks
  have hs : s = 0 := by
    change 10 * s ≤ 5 at hsle
    omega
  have he : e = 1 := by
    change 10 * e < 15 at helt
    change 15 < 10 * e + 10 at hegt
    omega
  subst hs he
  exact absurd hshrinks (by decide)

/-- A range from the middle of the first range to the middle of the fourth one: the rest of the
fourth range gets the type of the fifth one. -/
theorem not_sets_sampleRanges : WellFormed 0 (bytesAt sampleRanges 0 5) 50 ∧ ∃ r' count',
    mtrrLibSetMemoryType sampleRanges 8 5 5 30 .writeThrough = .ok (.success, r', count') ∧
      ¬ Sets 0 50 sampleRanges 5 5 30 .writeThrough r' count' :=
  ⟨wellFormed_sampleRanges, _, _, rfl, fun h => absurd (h.types 35) (by decide)⟩

end Edk2.Mtrr
