import Edk2.SmmPage.Release
import Edk2.SmmPool.Blocks

/-!
# Allocating blocks

`InternalAllocPoolByIndex` goes up until a list has a block or a page is taken, and splits the block
on its way back. The blocks that were handed out and the free ones tile the pages of their type on
every level, so they do at the end.
-/

namespace Edk2.SmmPool

open Pool (MemoryType efiRuntimeServicesCode efiRuntimeServicesData assertThat efiSizeToPages)
open SmmPage (allocateAnyPages efiPagesToSize smmInternalAllocatePages FreeList IsFree InPages
  KeepsFree)
open Extent Halting

variable {s s' : State} {b r : Block} {bins : List Block} {type type' : SmmPoolType}
  {poolType : MemoryType} {status : EfiStatus} {page : SmmPage.State}
  {below hdr address noPages size a : ℕ}

/-- The pages that the pool has. -/
def State.obtained (s : State) : List Block :=
  s.binPages .code ++ s.binPages .data ++ s.blockPages

lemma mem_obtained_of_binPages (h : r ∈ s.binPages type) : r ∈ s.obtained := by
  unfold State.obtained
  cases type with
  | code => exact List.mem_append_left _ (List.mem_append_left _ h)
  | data => exact List.mem_append_left _ (List.mem_append_right _ h)

lemma obtained_congr (hbins : s'.binPages = s.binPages) (hblo : s'.blockPages = s.blockPages) :
    s'.obtained = s.obtained := by
  rw [State.obtained, hbins, hblo, State.obtained]

/-- Whole pages other than the first and the last one. -/
structure Block.IsPages (r : Block) : Prop where
  aligned : r.address % 4096 = 0
  pos : 0 < r.address
  size_pos : 0 < r.size
  size_aligned : r.size % 4096 = 0
  lt_top : r.address + r.size < 2 ^ 64

/-- The pages that the pool has are apart and not free. -/
structure PagesInv (s : State) : Prop where
  freeList : FreeList s.page.mSmmMemoryMap
  isPages : ∀ r ∈ s.obtained, r.IsPages
  notFree : ∀ r ∈ s.obtained, ∀ a, r.Contains a → ¬ IsFree s.page.mSmmMemoryMap a
  apart : s.obtained.Pairwise Apart

/-- The pages are new to the pool. -/
structure NewPages (s : State) (page : SmmPage.State) (r : Block) : Prop where
  keeps : KeepsFree s.page page
  isPages : r.IsPages
  wasFree : ∀ a, r.Contains a → IsFree s.page.mSmmMemoryMap a
  notFree : ∀ a, r.Contains a → ¬ IsFree page.mSmmMemoryMap a

lemma PagesInv.keep (h : PagesInv s) (hkee : KeepsFree s.page s'.page)
    (hobt : s'.obtained = s.obtained) : PagesInv s' := by
  refine ⟨hkee.freeList, ?_, ?_, ?_⟩
  · rw [hobt]
    exact h.isPages
  · rw [hobt]
    exact fun r hr a ha hfree => h.notFree r hr a ha (hkee.isFree a hfree)
  · rw [hobt]
    exact h.apart

lemma PagesInv.apart_new (h : PagesInv s) (hnew : NewPages s page r) :
    ∀ r' ∈ s.obtained, Apart r r' := by
  intro r' hr'
  refine apart_of_disjoint ?_ ?_ fun p hp hp' hin => ?_
  · exact Nat.lt_add_of_pos_right hnew.isPages.size_pos
  · exact Nat.lt_add_of_pos_right (h.isPages r' hr').size_pos
  · exact h.notFree r' hr' p hin (hnew.wasFree p ⟨hp, hp'⟩)

lemma PagesInv.add (h : PagesInv s) (hnew : NewPages s s'.page r)
    (hobt : s'.obtained.Perm (r :: s.obtained)) : PagesInv s' := by
  refine ⟨hnew.keeps.freeList, fun r' hr' => ?_, fun r' hr' a ha hfree => ?_, ?_⟩
  · rcases List.mem_cons.mp (hobt.mem_iff.mp hr') with rfl | hold
    · exact hnew.isPages
    · exact h.isPages r' hold
  · rcases List.mem_cons.mp (hobt.mem_iff.mp hr') with rfl | hold
    · exact hnew.notFree a ha hfree
    · exact h.notFree r' hold a ha (hnew.keeps.isFree a hfree)
  · rw [hobt.pairwise_iff Apart.symm]
    exact .cons (h.apart_new hnew) h.apart

lemma PagesInv.allocate (h : PagesInv s) (hn : 0 < noPages)
    (hall : smmInternalAllocatePages s.page allocateAnyPages poolType noPages 0 =
      .ok (status, address, page)) :
    KeepsFree s.page page ∧ (status.isError = false →
      efiPagesToSize noPages = 4096 * noPages ∧
        NewPages s page ⟨address, 4096 * noPages⟩) := by
  obtain ⟨hkee, hnew⟩ := SmmPage.smmInternalAllocatePages_free h.freeList hn hall
  refine ⟨hkee, fun hok => ?_⟩
  obtain ⟨hali, hpos, hlt, hfree⟩ := hnew hok
  refine ⟨SmmPage.efiPagesToSize_of_lt (by omega), hkee, ⟨hali, hpos, ?_, ?_, hlt⟩,
    fun a ha => (hfree a ha).1, fun a ha => (hfree a ha).2⟩
  · dsimp only
    omega
  · exact Nat.mul_mod_right _ _

/-! ### The blocks of a type -/

/-- A block of a list: its size is that of a list, or a page, and it is aligned to its size. -/
def Block.IsBuddy (b : Block) : Prop :=
  ∃ i ≤ maxPoolIndex, b.size = blockSize i ∧ b.address % blockSize i = 0

/-- The blocks `bins` that were handed out and the free ones tile the pages of the type. -/
structure BinInv (type : SmmPoolType) (bins : List Block) (s : State) : Prop where
  tiling : TilingList (bins ++ freeBlocks s type) (s.binPages type)
  buddy : ∀ b ∈ bins ++ freeBlocks s type, b.IsBuddy

lemma BinInv.perm {bins' : List Block} (h : BinInv type bins s) (hperm : bins.Perm bins') :
    BinInv type bins' s :=
  ⟨h.tiling.perm (hperm.append_right _), fun b hb =>
    h.buddy b ((hperm.append_right _).mem_iff.mpr hb)⟩

lemma BinInv.inside (h : BinInv type bins s) (hb : b ∈ bins ++ freeBlocks s type) :
    ∃ r ∈ s.binPages type, r.address ≤ b.address ∧ b.address + b.size ≤ r.address + r.size :=
  h.tiling.tiling.inside b hb

lemma BinInv.lt_top (h : BinInv type bins s) (hP : PagesInv s)
    (hb : b ∈ bins ++ freeBlocks s type) : b.address + b.size < 2 ^ 64 := by
  obtain ⟨r, hr, -, hle⟩ := h.inside hb
  exact lt_of_le_of_lt hle (hP.isPages r (mem_obtained_of_binPages hr)).lt_top

/-- What `InternalAllocPoolByIndex` did when it returned the block `b`. -/
structure Allocated (poolType : MemoryType) (type : SmmPoolType) (bins : List Block) (b : Block)
    (s s' : State) : Prop where
  inv : BinInv type (b :: bins) s'
  filled : b.Filled s'.mem poolType
  lists : ∀ type' ≠ type, s'.mSmmPoolLists type' = s.mSmmPoolLists type'
  binPages : ∀ type' ≠ type, s'.binPages type' = s.binPages type'
  blockPages : s'.blockPages = s.blockPages
  /-- Only the new block and free ones are written to. -/
  frame : ∀ a, (∀ c ∈ b :: freeBlocks s' type, ¬ c.Contains a) → s'.mem a = s.mem a

/-- The free lists and the pages are as they were. -/
structure SamePool (s s' : State) : Prop where
  mem : s'.mem = s.mem
  lists : s'.mSmmPoolLists = s.mSmmPoolLists
  binPages : s'.binPages = s.binPages
  blockPages : s'.blockPages = s.blockPages

lemma allocated_of_newPages (hP : PagesInv s) (hB : BinInv type bins s)
    (hnew : NewPages s page ⟨address, size⟩) (hsize : size = blockSize maxPoolIndex)
    (hali : address % size = 0) (htype : poolType < 2 ^ 32)
    (hs' : s' = { s with
      mem := fillBlock s.mem address size poolType
      page := page
      binPages := fun type' => if type' = type then ⟨address, size⟩ :: s.binPages type
        else s.binPages type' }) :
    PagesInv s' ∧ Allocated poolType type bins ⟨address, size⟩ s s' := by
  have hle : poolOverhead ≤ size := hsize ▸ le_trans (by decide) (le_blockSize maxPoolIndex)
  have hbins : s'.binPages type = ⟨address, size⟩ :: s.binPages type := by
    rw [hs']
    exact if_pos rfl
  have hoth : ∀ type' ≠ type, s'.binPages type' = s.binPages type' := by
    intro type' hne
    rw [hs']
    exact if_neg hne
  have hfree : freeBlocks s' type = freeBlocks s type := freeBlocks_congr (by rw [hs'])
  have hmem : s'.mem = fillBlock s.mem address size poolType := by rw [hs']
  have hobt : s'.obtained.Perm (⟨address, size⟩ :: s.obtained) := by
    have hblo : s'.blockPages = s.blockPages := by rw [hs']
    unfold State.obtained
    rw [hblo]
    cases type with
    | code =>
      rw [hbins, hoth .data nofun]
      exact .refl _
    | data =>
      rw [hbins, hoth .code nofun]
      exact List.perm_middle.append_right _
  have hpage : NewPages s s'.page ⟨address, size⟩ := by
    rw [hs']
    exact hnew
  have hlt := hnew.isPages.lt_top
  refine ⟨hP.add hpage hobt, ⟨⟨?_, ?_⟩, ?_, ?_, hoth, by rw [hs'], fun a ha => ?_⟩⟩
  · rw [hbins, hfree]
    refine hB.tiling.cons rfl rfl (Nat.lt_add_of_pos_right hnew.isPages.size_pos) fun r hr => ?_
    exact hP.apart_new hnew r (mem_obtained_of_binPages hr)
  · rw [hfree]
    intro b hb
    rcases List.mem_cons.mp hb with rfl | hb
    · exact ⟨maxPoolIndex, le_rfl, hsize, hsize ▸ hali⟩
    · exact hB.buddy b hb
  · rw [hmem]
    exact filled_fillBlock hle hlt htype
  · intro type' hne
    rw [hs']
  · rw [hmem]
    exact fillBlock_of_not_contains hle hlt (ha _ List.mem_cons_self)

lemma allocated_of_list {poolIndex : ℕ} {rest : List ℕ} (hP : PagesInv s)
    (hB : BinInv type bins s) (hind : poolIndex < maxPoolIndex)
    (hlist : s.mSmmPoolLists type poolIndex = hdr :: rest) (htype : poolType < 2 ^ 32)
    (hs' : s' = { s.setList type poolIndex rest with
      mem := fillBlock s.mem hdr (blockSize poolIndex) poolType }) :
    PagesInv s' ∧ Allocated poolType type bins ⟨hdr, blockSize poolIndex⟩ s s' := by
  have hfree : (freeBlocks s type).Perm (⟨hdr, blockSize poolIndex⟩ :: freeBlocks s' type) := by
    have hlis : freeBlocks s' type = freeBlocks (s.setList type poolIndex rest) type :=
      freeBlocks_congr (by rw [hs'])
    rw [hlis]
    exact freeBlocks_setList_tail hind hlist
  have hperm : (bins ++ freeBlocks s type).Perm
      (⟨hdr, blockSize poolIndex⟩ :: bins ++ freeBlocks s' type) :=
    (hfree.append_left bins).trans List.perm_middle
  have hbins : s'.binPages = s.binPages := by rw [hs']; rfl
  have hblo : s'.blockPages = s.blockPages := by rw [hs']; rfl
  have hmem : s'.mem = fillBlock s.mem hdr (blockSize poolIndex) poolType := by rw [hs']
  have hin : (⟨hdr, blockSize poolIndex⟩ : Block) ∈ bins ++ freeBlocks s type :=
    hperm.mem_iff.mpr List.mem_cons_self
  have hlt := hB.lt_top hP hin
  have hle : poolOverhead ≤ blockSize poolIndex := le_trans (by decide) (le_blockSize poolIndex)
  refine ⟨?_, ⟨⟨?_, fun b hb => hB.buddy b (hperm.mem_iff.mpr hb)⟩, ?_, ?_, ?_, ?_, fun a ha => ?_⟩⟩
  · have hkee : KeepsFree s.page s'.page := by
      rw [hs']
      exact .refl hP.freeList
    exact hP.keep hkee (obtained_congr hbins hblo)
  · rw [hbins]
    exact hB.tiling.perm hperm
  · rw [hmem]
    exact filled_fillBlock hle hlt htype
  · intro type' hne
    rw [hs']
    funext i
    exact if_neg fun heq => hne heq.1
  · exact fun type' _ => by rw [hbins]
  · exact hblo
  · rw [hmem]
    exact fillBlock_of_not_contains hle hlt (ha _ List.mem_cons_self)

lemma allocated_of_split {s₁ : State} {poolIndex : ℕ} (hP : PagesInv s₁)
    (h : Allocated poolType type bins ⟨hdr, blockSize (poolIndex + 1)⟩ s s₁)
    (hind : poolIndex < maxPoolIndex) (htype : poolType < 2 ^ 32) {s₂ : State} {hdr' : ℕ}
    (hspl : splitBlock s₁ type poolIndex hdr = (hdr', s₂))
    (hs' : s' = { s₂ with mem := fillBlock s₂.mem hdr' (blockSize poolIndex) poolType }) :
    PagesInv s' ∧ Allocated poolType type bins ⟨hdr', blockSize poolIndex⟩ s s' := by
  have hsucc := blockSize_succ poolIndex
  have hle64 := le_blockSize poolIndex
  generalize hhalf : blockSize poolIndex = half at *
  rw [hsucc] at h
  have hin : (⟨hdr, 2 * half⟩ : Block) ∈ (⟨hdr, 2 * half⟩ :: bins) ++ freeBlocks s₁ type :=
    List.mem_cons_self
  have hlt : hdr + 2 * half < 2 ^ 64 := h.inv.lt_top hP hin
  have hle : poolOverhead ≤ half := le_trans (by decide) hle64
  obtain ⟨m, heq, hm⟩ := splitBlock_spec h.filled.size hle hlt
  obtain ⟨rfl, rfl⟩ := Prod.mk.inj (heq.symm.trans hspl)
  have hlt' : hdr + half + half < 2 ^ 64 := by omega
  have hmem : s'.mem = fillBlock m (hdr + half) half poolType := by rw [hs']; rfl
  have hbins : s'.binPages = s₁.binPages := by rw [hs']; rfl
  have hblo : s'.blockPages = s₁.blockPages := by rw [hs']; rfl
  have hfree : (freeBlocks s' type).Perm (⟨hdr, half⟩ :: freeBlocks s₁ type) := by
    have hins : (freeBlocks (s₁.insertHeadList type poolIndex hdr) type).Perm
        (⟨hdr, blockSize poolIndex⟩ :: freeBlocks s₁ type) := freeBlocks_insertHeadList hind
    have hlis : freeBlocks s' type = freeBlocks (s₁.insertHeadList type poolIndex hdr) type :=
      freeBlocks_congr (by rw [hs']; rfl)
    rw [hhalf] at hins
    rw [hlis]
    exact hins
  have hperm : (⟨hdr, half⟩ :: ⟨hdr + half, half⟩ :: (bins ++ freeBlocks s₁ type)).Perm
      (⟨hdr + half, half⟩ :: bins ++ freeBlocks s' type) := by
    refine (List.Perm.swap _ _ _).trans (.cons _ ?_)
    exact List.perm_middle.symm.trans (hfree.symm.append_left bins)
  obtain ⟨i, hi, hsize, hali⟩ := h.inv.buddy _ hin
  refine ⟨?_, ⟨⟨?_, fun b hb => ?_⟩, ?_, ?_, ?_, ?_, fun a ha => ?_⟩⟩
  · have hkee : KeepsFree s₁.page s'.page := by
      rw [hs']
      exact .refl hP.freeList
    exact hP.keep hkee (obtained_congr hbins hblo)
  · rw [hbins]
    have hpos : 0 < half := by omega
    have hhal : TilingList (⟨hdr, half⟩ :: ⟨hdr + half, half⟩ :: (bins ++ freeBlocks s₁ type))
        (s₁.binPages type) := by
      refine TilingList.split h.inv.tiling ?_ ?_ ?_ ?_ ?_
      · rfl
      · rfl
      · rw [stop_block, stop_block]
        dsimp only
        omega
      · exact Nat.lt_add_of_pos_right hpos
      · exact Nat.lt_add_of_pos_right hpos
    exact hhal.perm hperm
  · have hpar : hdr % (2 * half) = 0 := by
      rw [← hsize] at hali
      exact hali
    have hlow : hdr % half = 0 := Nat.mod_eq_zero_of_dvd
      ((Nat.dvd_mul_left half 2).trans (Nat.dvd_of_mod_eq_zero hpar))
    rcases List.mem_cons.mp (hperm.mem_iff.mpr hb) with rfl | hb
    · exact ⟨poolIndex, hind.le, hhalf.symm, hhalf.symm ▸ hlow⟩
    · rcases List.mem_cons.mp hb with rfl | hb
      · refine ⟨poolIndex, hind.le, hhalf.symm, ?_⟩
        rw [hhalf]
        dsimp only
        rw [Nat.add_mod_right]
        exact hlow
      · exact h.inv.buddy b (List.mem_cons_of_mem _ hb)
  · rw [hmem]
    exact filled_fillBlock hle hlt' htype
  · intro type' hne
    rw [← h.lists type' hne, hs']
    funext i
    exact if_neg fun heq => hne heq.1
  · intro type' hne
    rw [hbins]
    exact h.binPages type' hne
  · exact hblo.trans h.blockPages
  · -- the two halves are the block, so nothing else was written to
    have hhigh := ha _ List.mem_cons_self
    have hlow := ha ⟨hdr, half⟩ (List.mem_cons_of_mem _ (hfree.mem_iff.mpr List.mem_cons_self))
    rw [hmem, fillBlock_of_not_contains hle hlt' hhigh, hm a hlow]
    refine h.frame a fun c hc => ?_
    rcases List.mem_cons.mp hc with rfl | hc
    · grind [Block.Contains]
    · exact ha c (List.mem_cons_of_mem _ (hfree.mem_iff.mpr (List.mem_cons_of_mem _ hc)))

lemma allocPoolBelow_spec (hP : PagesInv s) (hB : BinInv type bins s) (htype : poolType < 2 ^ 32)
    (hbel : below ≤ maxPoolIndex) (h : allocPoolBelow poolType type below s =
      .ok (status, hdr, s')) :
    PagesInv s' ∧ (status.isError = true → SamePool s s') ∧ (status.isError = false →
      Allocated poolType type bins ⟨hdr, blockSize (maxPoolIndex - below)⟩ s s') := by
  induction below generalizing status hdr s' with
  | zero =>
    have hpages : efiSizeToPages (maxPoolSize <<< 1) = 1 := by decide
    have hpag : efiPagesToSize 1 = 4096 := by decide
    have hblo : minPoolSize <<< maxPoolIndex = 4096 := by decide
    unfold allocPoolBelow at h
    rw [hpages, hpag, hblo] at h
    generalize hpage : (4096 : ℕ) = size at h hblo
    obtain ⟨⟨status₁, address, page⟩, hallo, hrest⟩ := bind_eq_ok.mp h
    obtain ⟨hkee, hnew⟩ := hP.allocate (by decide) hallo
    dsimp only at hrest
    split_ifs at hrest with herr
    · obtain ⟨rfl, rfl, rfl⟩ : .outOfResources = status ∧ 0 = hdr ∧ { s with page := page } = s' := by
        simpa using pure_eq_ok.mp hrest
      exact ⟨hP.keep hkee rfl, fun _ => ⟨rfl, rfl, rfl, rfl⟩, nofun⟩
    · obtain ⟨rfl, hpair⟩ := Prod.mk.inj (pure_eq_ok.mp hrest)
      obtain ⟨rfl, hs'⟩ := Prod.mk.inj hpair
      obtain ⟨-, hnew⟩ := hnew (by simpa using herr)
      rw [Nat.mul_one, hpage] at hnew
      have hali : address % size = 0 := hpage ▸ hnew.isPages.aligned
      obtain ⟨hP', hall⟩ :=
        allocated_of_newPages hP hB hnew hblo.symm hali htype hs'.symm
      have hsize : blockSize (maxPoolIndex - 0) = size := hblo
      exact ⟨hP', nofun, fun _ => hsize ▸ hall⟩
  | succ below ih =>
    have hind : maxPoolIndex - (below + 1) < maxPoolIndex := by omega
    have hnext : maxPoolIndex - (below + 1) + 1 = maxPoolIndex - below := by omega
    unfold allocPoolBelow at h
    dsimp only at h
    generalize maxPoolIndex - (below + 1) = poolIndex at h hind hnext ⊢
    cases hlist : s.mSmmPoolLists type poolIndex with
    | cons first rest =>
      rw [hlist] at h
      obtain ⟨rfl, hpair⟩ := Prod.mk.inj (Except.ok.inj h)
      obtain ⟨rfl, hs'⟩ := Prod.mk.inj hpair
      obtain ⟨hP', hall⟩ := allocated_of_list hP hB hind hlist htype hs'.symm
      exact ⟨hP', nofun, fun _ => hall⟩
    | nil =>
      rw [hlist] at h
      obtain ⟨⟨status₁, hdr₁, s₁⟩, habo, hrest⟩ := bind_eq_ok.mp h
      obtain ⟨hP₁, hsame, hall⟩ := ih (by omega) habo
      dsimp only at hrest
      split_ifs at hrest with herr
      · obtain ⟨rfl, rfl, rfl⟩ : status₁ = status ∧ hdr₁ = hdr ∧ s₁ = s' := by
          simpa using pure_eq_ok.mp hrest
        exact ⟨hP₁, hsame, fun hok => by simp [herr] at hok⟩
      · generalize hspl : splitBlock s₁ type poolIndex hdr₁ = halv at hrest
        obtain ⟨hdr₂, s₂⟩ := halv
        obtain ⟨rfl, hpair⟩ := Prod.mk.inj (pure_eq_ok.mp hrest)
        obtain ⟨rfl, hs'⟩ := Prod.mk.inj hpair
        have hall₁ := hall (by simpa using herr)
        rw [← hnext] at hall₁
        obtain ⟨hP', hall'⟩ :=
          allocated_of_split hP₁ hall₁ hind htype hspl hs'.symm
        exact ⟨hP', nofun, fun _ => hall'⟩

end Edk2.SmmPool

/-!
## Freeing blocks

A block that was handed out passes every check of `SmmInternalFreePool`: its header and its tail are
as they were filled, and its size and its address are those of its list.
-/

namespace Edk2.SmmPool

open Pool (MemoryType efiRuntimeServicesCode efiRuntimeServicesData assertThat efiSizeToPages)
open SmmPage (smmInternalFreePages FreeList IsFree InPages)
open Extent Halting

variable {s : State} {b : Block} {type : SmmPoolType}
  {poolType : MemoryType} {m : Memory} {a i : ℕ}

/-- The memory type of the pool. -/
def SmmPoolType.memoryType : SmmPoolType → MemoryType
  | .code => efiRuntimeServicesCode
  | .data => efiRuntimeServicesData

lemma uefiMemoryTypeToSmmPoolType_memoryType (type : SmmPoolType) :
    uefiMemoryTypeToSmmPoolType type.memoryType = .ok type := by
  cases type with
  | code => rfl
  | data => rfl

lemma assertThat_bind {α : Type} {c : Bool} {f : Unit → Except Halt α} (h : c = true) :
    (assertThat c >>= f) = f () := by
  rw [h]
  rfl

lemma highBitSet32_blockSize (hi : i < maxPoolIndex) :
    uintn (highBitSet32 (u32 (blockSize i)) - minPoolShift) = i := by
  have hall : ∀ i < maxPoolIndex, uintn (highBitSet32 (u32 (blockSize i)) - minPoolShift) = i := by
    decide
  exact hall i hi

lemma sub64_blockSize (hi : i < maxPoolIndex) : sub64 (blockSize i) 1 = 2 ^ (6 + i) - 1 := by
  have hall : ∀ i < maxPoolIndex, sub64 (blockSize i) 1 = 2 ^ (6 + i) - 1 := by decide
  exact hall i hi

lemma blockSize_eq_two_pow (i : ℕ) : blockSize i = 2 ^ (6 + i) := by
  rw [blockSize_eq, Nat.pow_add]

lemma index_lt_of_size_le (h : blockSize i ≤ maxPoolSize) (hi : i ≤ maxPoolIndex) :
    i < maxPoolIndex := by
  refine lt_of_le_of_ne hi ?_
  rintro rfl
  exact absurd h (by decide)

lemma blockSize_checks (hi : i < maxPoolIndex) (hali : a % blockSize i = 0) :
    blockSize i &&& sub64 (blockSize i) 1 = 0 ∧ a &&& sub64 (blockSize i) 1 = 0 := by
  rw [sub64_blockSize hi, Nat.and_two_pow_sub_one_eq_mod, Nat.and_two_pow_sub_one_eq_mod,
    ← blockSize_eq_two_pow]
  exact ⟨Nat.mod_self _, hali⟩

/-- What `InternalFreePoolByIndex` writes into the block. -/
def clearBlock (m : Memory) (hdr tail : ℕ) : Memory :=
  setTailSize (setTailSignature (setHeadType (setHeadAvailable (setHeadSignature m hdr 0) hdr 1)
    hdr 0) tail 0) tail 0

lemma clearBlock_of_not_contains (hle : poolOverhead ≤ b.size) (ha : ¬ b.Contains a) :
    clearBlock m b.address b.tail a = m a := by
  unfold poolOverhead sizeOfPoolHeader sizeOfPoolTail at hle
  have htail : b.tail = b.address + b.size - 16 := rfl
  rw [clearBlock, setTailSize, writeField_of_outside ha (by omega) (by omega), setTailSignature,
    writeField_of_outside ha (by omega) (by omega), setHeadType,
    writeField_of_outside ha (by omega) (by omega), setHeadAvailable,
    writeField_of_outside ha (by omega) (by omega), setHeadSignature,
    writeField_of_outside ha (by omega) (by omega)]

lemma internalFreePoolByIndex_eq (hb : b.Filled s.mem type.memoryType) (hi : i < maxPoolIndex)
    (hsize : b.size = blockSize i) (hali : b.address % blockSize i = 0) :
    internalFreePoolByIndex s b.address b.tail = .ok (.success,
      ({ s with mem := clearBlock s.mem b.address b.tail } : State).insertHeadList type i
        b.address) := by
  obtain ⟨hpow, halig⟩ := blockSize_checks hi hali
  have hmin : minPoolSize ≤ blockSize i := le_blockSize i
  unfold internalFreePoolByIndex
  dsimp only
  rw [hb.size, hsize, assertThat_bind (decide_eq_true hpow), assertThat_bind (decide_eq_true halig),
    assertThat_bind (decide_eq_true hmin), hb.type, uefiMemoryTypeToSmmPoolType_memoryType, ok_bind,
    highBitSet32_blockSize hi, assertThat_bind (decide_eq_true hi)]
  rfl

lemma smmInternalFreePool_eq (hb : b.Filled s.mem poolType) (hle : poolOverhead ≤ b.size)
    (hlt : b.address + b.size < 2 ^ 64) :
    smmInternalFreePool s (b.address + sizeOfPoolHeader) =
      if b.size > maxPoolSize then do
        assertThat (b.address % efiPageSize = 0)
        assertThat (b.size % efiPageSize = 0)
        freePoolPages s b.address
      else internalFreePoolByIndex s b.address b.tail := by
  unfold poolOverhead sizeOfPoolHeader sizeOfPoolTail at hle
  have hhdr : sub64 (b.address + sizeOfPoolHeader) sizeOfPoolHeader = b.address := by
    unfold sub64 u64 sizeOfPoolHeader
    omega
  have htail : headToTail s.mem b.address = b.tail := headToTail_eq hb.size (by omega) hlt
  have hne : ¬ b.address + sizeOfPoolHeader = 0 := by
    unfold sizeOfPoolHeader
    omega
  unfold smmInternalFreePool
  rw [if_neg hne]
  dsimp only
  rw [hhdr, assertThat_bind (decide_eq_true hb.signature),
    assertThat_bind (decide_eq_true hb.available), htail,
    assertThat_bind (decide_eq_true hb.tailSignature),
    assertThat_bind (decide_eq_true (hb.size.trans hb.tailSize.symm)), hb.size]

lemma smmInternalFreePool_pages (hb : b.Filled s.mem poolType) (hpag : b.IsPages)
    (hsize : maxPoolSize < b.size) :
    smmInternalFreePool s (b.address + sizeOfPoolHeader) = freePoolPages s b.address := by
  have hle : poolOverhead ≤ b.size := le_trans (by decide) hsize.le
  rw [smmInternalFreePool_eq hb hle hpag.lt_top, if_pos hsize,
    assertThat_bind (decide_eq_true hpag.aligned),
    assertThat_bind (decide_eq_true hpag.size_aligned)]

lemma smmInternalFreePool_bin (hb : b.Filled s.mem type.memoryType) (hi : i < maxPoolIndex)
    (hsize : b.size = blockSize i) (hali : b.address % blockSize i = 0)
    (hlt : b.address + b.size < 2 ^ 64) :
    smmInternalFreePool s (b.address + sizeOfPoolHeader) = .ok (.success,
      ({ s with mem := clearBlock s.mem b.address b.tail } : State).insertHeadList type i
        b.address) := by
  have hle : poolOverhead ≤ b.size := hsize ▸ le_trans (by decide) (le_blockSize i)
  have hmax : ¬ b.size > maxPoolSize := by
    have hall : ∀ i < maxPoolIndex, ¬ blockSize i > maxPoolSize := by decide
    exact hsize ▸ hall i hi
  rw [smmInternalFreePool_eq hb hle hlt, if_neg hmax]
  exact internalFreePoolByIndex_eq hb hi hsize hali

end Edk2.SmmPool
