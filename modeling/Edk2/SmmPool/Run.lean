import Edk2.SmmPool.Free

/-!
# Runs of the SMM pool

After the regions are added, blocks are allocated and freed in any order, while whoever uses memory
writes anything but the headers and the tails of the blocks that are handed out. The blocks that
are handed out and the free ones tile the pages that were taken. The sum of the size and the
overhead is not checked: a size just below the top of `UINTN` gets the smallest block.
-/

namespace Edk2.SmmPool

open Pool (MemoryType efiRuntimeServicesCode efiRuntimeServicesData assertThat efiSizeToPages)
open SmmPage (smmInternalFreePages FreeList IsFree InPages SoundRange KeepsFree)
open Extent Halting Bytes

/-- A block that was handed out, with what was asked for. -/
structure Allocation where
  block : Block
  poolType : MemoryType
  request : ℕ
deriving DecidableEq, Repr

/-- The address that the caller got. -/
def Allocation.buffer (a : Allocation) : ℕ := a.block.address + sizeOfPoolHeader

/-- The bytes that the caller asked for. -/
def Allocation.Usable (a : Allocation) (x : ℕ) : Prop := a.buffer ≤ x ∧ x < a.buffer + a.request

/-- The block comes from the lists of the type. -/
def Allocation.IsBin (type : SmmPoolType) (a : Allocation) : Prop :=
  a.poolType = type.memoryType ∧ a.block.size ≤ maxPoolSize

instance (type : SmmPoolType) (a : Allocation) : Decidable (a.IsBin type) :=
  inferInstanceAs (Decidable (_ ∧ _))

structure History where
  state : State
  live : List Allocation

/-- The blocks of the lists that are handed out. -/
def binBlocks (live : List Allocation) (type : SmmPoolType) : List Block :=
  (live.filter fun a => a.IsBin type).map Allocation.block

/-- The blocks of whole pages that are handed out. -/
def runBlocks (live : List Allocation) : List Block :=
  (live.filter fun a => ¬ a.block.size ≤ maxPoolSize).map Allocation.block

inductive Call
  | allocatePool (poolType : MemoryType) (size : ℕ)
  | freePool (buffer : ℕ)
  /-- Someone writes to memory. -/
  | write (address : ℕ) (bytes : List UInt8)

def History.call (h : History) : Call → Except Halt (EfiStatus × History)
  | .allocatePool poolType size => do
    let (status, buffer, s) ← smmAllocatePool h.state poolType size
    let hdr := sub64 buffer sizeOfPoolHeader
    return (status, {
      state := s
      live := if status.isError then h.live
        else ⟨⟨hdr, headSize s.mem hdr⟩, poolType, size⟩ :: h.live })
  | .freePool buffer => do
    let (status, s) ← smmFreePool h.state buffer
    return (status, {
      state := s
      live := if status.isError then h.live else h.live.eraseP fun a => a.buffer = buffer })
  | .write address bytes =>
    .ok (.success, { h with state := { h.state with
      mem := writeBytes h.state.mem address bytes } })

/-- Sizes are 64-bit values, only blocks that are handed out are freed, and nobody else writes to
their headers and tails. -/
def History.Admits (h : History) : Call → Prop
  | .allocatePool _ size => size < 2 ^ 64
  | .freePool buffer => buffer = 0 ∨ ∃ a ∈ h.live, a.buffer = buffer
  | .write address bytes => ∀ a ∈ h.live, ∀ x, address ≤ x → x < address + bytes.length →
      a.block.Contains x → a.Usable x

/-- The size and the overhead are together below `2 ^ 64`. -/
def Call.Sound : Call → Prop
  | .allocatePool _ size => size + poolOverhead < 2 ^ 64
  | .freePool _ => True
  | .write _ _ => True

/-- The histories that calls of the kind `P` lead to, from regions that are sound if they are
free. -/
inductive Reaches (P : History → Call → Prop) : History → Prop
  | start {mem : Memory} {smramRanges : List SmramDescriptor} {s : State}
      (hr : ∀ r ∈ smramRanges, ¬ r.IsUsed → SoundRange r.cpuStart r.physicalSize)
      (h : smmInitializeMemoryServices mem smramRanges = .ok s) : Reaches P ⟨s, []⟩
  | step {h h' : History} {c : Call} {status : EfiStatus} (hr : Reaches P h) (hP : P h c)
      (hc : h.call c = .ok (status, h')) : Reaches P h'

/-- The two blocks have no byte in common. -/
def Block.Disjoint (b c : Block) : Prop := ∀ x, ¬ (b.Contains x ∧ c.Contains x)

/-- Blocks are apart, and those of the lists and the free ones partition the pages. -/
structure History.InOrder (h : History) : Prop where
  /-- The bytes that were asked for lie between the header and the tail. -/
  usable : ∀ a ∈ h.live, a.buffer + a.request ≤ a.block.tail
  filled : ∀ a ∈ h.live, a.block.Filled h.state.mem a.poolType
  inside : ∀ a ∈ h.live, ∃ r ∈ h.state.obtained,
    r.address ≤ a.block.address ∧ a.block.address + a.block.size ≤ r.address + r.size
  live_apart : h.live.Pairwise fun a b => a.block.Disjoint b.block
  free_apart : ∀ a ∈ h.live, ∀ type, ∀ b ∈ freeBlocks h.state type, a.block.Disjoint b
  free_once : ∀ type, (freeBlocks h.state type).Pairwise Block.Disjoint
  nodup : ∀ type, ∀ i < maxPoolIndex, (h.state.mSmmPoolLists type i).Nodup
  aligned : ∀ type, ∀ i < maxPoolIndex, ∀ a ∈ h.state.mSmmPoolLists type i, a % blockSize i = 0
  partition : ∀ type x, (∃ r ∈ h.state.binPages type, r.Contains x) ↔
    ∃ b ∈ binBlocks h.live type ++ freeBlocks h.state type, b.Contains x
  pages_apart : h.state.obtained.Pairwise Block.Disjoint
  pages_not_free : ∀ r ∈ h.state.obtained, ∀ a, r.Contains a →
    ¬ IsFree h.state.page.mSmmMemoryMap a

variable {h h' : History} {c : Call} {status : EfiStatus}
  {s s' : State} {live live' : List Allocation} {type type' : SmmPoolType} {poolType : MemoryType} {a a' : Allocation} {b r : Block}
  {size buffer hdr x : ℕ}

/-- The header and the tail of a block are filled, and it is large enough. -/
structure Allocation.Valid (m : Memory) (a : Allocation) : Prop where
  filled : a.block.Filled m a.poolType
  type : ∃ type : SmmPoolType, a.poolType = type.memoryType
  fits : a.request + poolOverhead ≤ a.block.size

structure History.Inv (h : History) : Prop where
  pages : PagesInv h.state
  bins : ∀ type, BinInv type (binBlocks h.live type) h.state
  runs : (runBlocks h.live).Perm h.state.blockPages
  valid : ∀ a ∈ h.live, a.Valid h.state.mem

lemma mem_binBlocks (ha : a ∈ live) (hb : a.IsBin type) : a.block ∈ binBlocks live type :=
  List.mem_map_of_mem (List.mem_filter.mpr ⟨ha, by simpa using hb⟩)

lemma mem_runBlocks (ha : a ∈ live) (hsize : ¬ a.block.size ≤ maxPoolSize) :
    a.block ∈ runBlocks live :=
  List.mem_map_of_mem (List.mem_filter.mpr ⟨ha, by simpa using hsize⟩)

lemma binBlocks_perm (hl : live.Perm live') : (binBlocks live type).Perm (binBlocks live' type) :=
  (hl.filter _).map _

lemma runBlocks_perm (hl : live.Perm live') : (runBlocks live).Perm (runBlocks live') :=
  (hl.filter _).map _

lemma binBlocks_cons_of_isBin (ha : a.IsBin type) :
    binBlocks (a :: live) type = a.block :: binBlocks live type := by
  rw [binBlocks, List.filter_cons_of_pos (by simpa using ha), List.map_cons, binBlocks]

lemma binBlocks_cons_of_not_isBin (ha : ¬ a.IsBin type) :
    binBlocks (a :: live) type = binBlocks live type := by
  rw [binBlocks, List.filter_cons_of_neg (by simpa using ha), binBlocks]

lemma runBlocks_cons_of_lt (ha : maxPoolSize < a.block.size) :
    runBlocks (a :: live) = a.block :: runBlocks live := by
  rw [runBlocks, List.filter_cons_of_pos (by simpa using ha), List.map_cons, runBlocks]

lemma runBlocks_cons_of_le (ha : a.block.size ≤ maxPoolSize) :
    runBlocks (a :: live) = runBlocks live := by
  rw [runBlocks, List.filter_cons_of_neg (by simpa using ha), runBlocks]

lemma Allocation.Valid.cases {m : Memory} (ha : a.Valid m) :
    (∃ type, a.IsBin type) ∨ ¬ a.block.size ≤ maxPoolSize := by
  obtain ⟨type, htype⟩ := ha.type
  by_cases hsize : a.block.size ≤ maxPoolSize
  · exact .inl ⟨type, htype, hsize⟩
  · exact .inr hsize

lemma memoryType_injective (h : type.memoryType = type'.memoryType) : type = type' := by
  cases type with
  | code =>
    cases type' with
    | code => rfl
    | data => exact absurd h (by decide)
  | data =>
    cases type' with
    | code => exact absurd h (by decide)
    | data => rfl

lemma Allocation.IsBin.not_isBin (ha : a.IsBin type) (hne : type' ≠ type) : ¬ a.IsBin type' :=
  fun ha' => hne (memoryType_injective (ha'.1.symm.trans ha.1))

lemma PagesInv.apart_binPages (hP : PagesInv s) {r' : Block}
    (hne : type ≠ type') (hr : r ∈ s.binPages type) (hr' : r' ∈ s.binPages type') : Apart r r' := by
  have hapa := (List.pairwise_append.mp (List.pairwise_append.mp hP.apart).1).2.2
  cases type with
  | code =>
    cases type' with
    | code => exact absurd rfl hne
    | data => exact hapa r hr r' hr'
  | data =>
    cases type' with
    | code => exact (hapa r' hr' r hr).symm
    | data => exact absurd rfl hne

lemma PagesInv.apart_blockPages (hP : PagesInv s) {r' : Block} (hr : r ∈ s.binPages type)
    (hr' : r' ∈ s.blockPages) : Apart r r' := by
  refine (List.pairwise_append.mp hP.apart).2.2 r ?_ r' hr'
  cases type with
  | code => exact List.mem_append_left _ hr
  | data => exact List.mem_append_right _ hr

lemma apart_of_inside {c r' : Block} (hapa : Apart r r')
    (hb : r.address ≤ b.address ∧ b.address + b.size ≤ r.address + r.size)
    (hc : r'.address ≤ c.address ∧ c.address + c.size ≤ r'.address + r'.size) : Apart b c := by
  unfold Apart at *
  rw [stop_block, start_block, stop_block, start_block] at *
  omega

lemma disjoint_of_apart {c : Block} (h : Apart b c) : b.Disjoint c := by
  rintro x ⟨hb, hc⟩
  exact h.not_mem hb.1 hb.2 hc

lemma History.Inv.inside (hI : h.Inv) (ha : a ∈ h.live) : ∃ r ∈ h.state.obtained,
    r.address ≤ a.block.address ∧ a.block.address + a.block.size ≤ r.address + r.size := by
  rcases (hI.valid a ha).cases with ⟨type, hbin⟩ | hrun
  · obtain ⟨r, hr, hin⟩ := (hI.bins type).inside (List.mem_append_left _ (mem_binBlocks ha hbin))
    exact ⟨r, mem_obtained_of_binPages hr, hin⟩
  · refine ⟨a.block, ?_, le_rfl, le_rfl⟩
    exact List.mem_append_right _ (hI.runs.mem_iff.mp (mem_runBlocks ha hrun))

/-! ### Steps -/

lemma Allocation.Valid.congr {m m' : Memory} (ha : a.Valid m)
    (hmem : ∀ x, a.block.Contains x → ¬ a.Usable x → m' x = m x) : a.Valid m' := by
  have hfits := ha.fits
  unfold poolOverhead sizeOfPoolHeader sizeOfPoolTail at hfits
  have houts : ∀ x, a.block.address ≤ x → x < a.block.address + a.block.size →
      x < a.block.address + 24 ∨ a.block.address + a.block.size - 16 ≤ x → m' x = m x := by
    intro x hle hlt hout
    refine hmem x ⟨hle, hlt⟩ fun husa => ?_
    unfold Allocation.Usable Allocation.buffer sizeOfPoolHeader at husa
    omega
  refine ⟨ha.filled.congr (fun x hx hx' => ?_) (fun x hx hx' => ?_), ha.type, ha.fits⟩
  · unfold sizeOfPoolHeader at hx'
    exact houts x hx (by omega) (.inl hx')
  · grind [Block.tail, sizeOfPoolTail]

lemma History.Inv.frame (hI : h.Inv) (hP' : PagesInv s')
    (hb : Allocated poolType type (binBlocks h.live type) b h.state s') (ha : a ∈ h.live)
    (hx : a.block.Contains x) : s'.mem x = h.state.mem x := by
  refine hb.frame x fun c hc hcx => ?_
  have hapa : Apart a.block c := by
    have hins : c ∈ (b :: binBlocks h.live type) ++ freeBlocks s' type := by
      grind
    obtain ⟨r, hr, hin⟩ := hb.inv.inside hins
    rcases (hI.valid a ha).cases with ⟨type', hbin⟩ | hrun
    · have hmem := mem_binBlocks ha hbin
      by_cases hne : type' = type
      · subst hne
        obtain ⟨hhead, htail⟩ := List.pairwise_cons.mp hb.inv.tiling.apart
        rcases List.mem_cons.mp hc with rfl | hc
        · exact (hhead _ (List.mem_append_left _ hmem)).symm
        · exact (List.pairwise_append.mp htail).2.2 _ hmem _ hc
      · obtain ⟨r', hr', hin'⟩ := (hI.bins type').inside (List.mem_append_left _ hmem)
        rw [← hb.binPages type' hne] at hr'
        exact apart_of_inside (hP'.apart_binPages hne hr' hr) hin' hin
    · have hrun' := hI.runs.mem_iff.mp (mem_runBlocks ha hrun)
      rw [← hb.blockPages] at hrun'
      exact apart_of_inside (hP'.apart_blockPages hr hrun').symm ⟨le_rfl, le_rfl⟩ hin
  exact disjoint_of_apart hapa x ⟨hx, hcx⟩

lemma inv_of_allocated (hI : h.Inv) (hP' : PagesInv s')
    (hb : Allocated type.memoryType type (binBlocks h.live type) b h.state s')
    (hsize : b.size ≤ maxPoolSize) (hfits : size + poolOverhead ≤ b.size) :
    History.Inv ⟨s', ⟨b, type.memoryType, size⟩ :: h.live⟩ := by
  have hbin : Allocation.IsBin type ⟨b, type.memoryType, size⟩ := ⟨rfl, hsize⟩
  refine ⟨hP', fun type' => ?_, ?_, fun a ha => ?_⟩
  · by_cases hne : type' = type
    · subst hne
      rw [binBlocks_cons_of_isBin hbin]
      exact hb.inv
    · rw [binBlocks_cons_of_not_isBin (hbin.not_isBin hne)]
      have hfree : freeBlocks s' type' = freeBlocks h.state type' :=
        freeBlocks_congr (hb.lists type' hne)
      obtain ⟨htil, hbud⟩ := hI.bins type'
      rw [← hfree] at htil hbud
      rw [← hb.binPages type' hne] at htil
      exact ⟨htil, hbud⟩
  · rw [runBlocks_cons_of_le hsize]
    dsimp only
    rw [hb.blockPages]
    exact hI.runs
  · rcases List.mem_cons.mp ha with rfl | ha
    · exact ⟨hb.filled, ⟨type, rfl⟩, hfits⟩
    · exact (hI.valid a ha).congr fun x hx _ => hI.frame hP' hb ha hx

lemma inv_of_newPages (hI : h.Inv) (hnew : NewPages h.state s'.page b)
    (hmem : s'.mem = fillBlock h.state.mem b.address b.size type.memoryType)
    (hlis : s'.mSmmPoolLists = h.state.mSmmPoolLists) (hbins : s'.binPages = h.state.binPages)
    (hblo : s'.blockPages = b :: h.state.blockPages)
    (hsize : maxPoolSize < b.size) (hfits : size + poolOverhead ≤ b.size) :
    History.Inv ⟨s', ⟨b, type.memoryType, size⟩ :: h.live⟩ := by
  have hle : poolOverhead ≤ b.size := le_trans (Nat.le_add_left _ _) hfits
  have htype : type.memoryType < 2 ^ 32 := by
    cases type with
    | code => decide
    | data => decide
  refine ⟨hI.pages.add hnew ?_, fun type' => ?_, ?_, fun a ha => ?_⟩
  · rw [State.obtained, hbins, hblo, State.obtained]
    exact List.perm_middle
  · have hnot : ¬ Allocation.IsBin type' ⟨b, type.memoryType, size⟩ :=
      fun hbin => absurd hbin.2 (Nat.not_le.mpr hsize)
    rw [binBlocks_cons_of_not_isBin hnot]
    have hfree : freeBlocks s' type' = freeBlocks h.state type' := freeBlocks_congr (by rw [hlis])
    obtain ⟨htil, hbud⟩ := hI.bins type'
    rw [← hfree] at htil hbud
    rw [← hbins] at htil
    exact ⟨htil, hbud⟩
  · rw [runBlocks_cons_of_lt hsize]
    dsimp only
    rw [hblo]
    exact hI.runs.cons _
  · rcases List.mem_cons.mp ha with rfl | ha
    · refine ⟨?_, ⟨type, rfl⟩, hfits⟩
      rw [hmem]
      exact filled_fillBlock hle hnew.isPages.lt_top htype
    · refine (hI.valid a ha).congr fun x hx _ => ?_
      rw [hmem]
      refine fillBlock_of_not_contains hle hnew.isPages.lt_top fun hbx => ?_
      obtain ⟨r, hr, hin⟩ := hI.inside ha
      have hapa := apart_of_inside (hI.pages.apart_new hnew r hr) ⟨le_rfl, le_rfl⟩ hin
      exact disjoint_of_apart hapa x ⟨hbx, hx⟩

lemma History.Inv.live_apart (hI : h.Inv) : (h.live.map Allocation.block).Pairwise Apart := by
  have hcode : SmmPoolType.code ≠ .data := by decide
  have hperm : (h.live.map Allocation.block).Perm
      (binBlocks h.live .code ++ binBlocks h.live .data ++ runBlocks h.live) := by
    have hval := hI.valid
    generalize h.live = live at hval
    induction live with
    | nil => exact .refl _
    | cons a live ih =>
      have hrest := ih fun a' ha' => hval a' (List.mem_cons_of_mem _ ha')
      rcases (hval a List.mem_cons_self).cases with ⟨type, hbin⟩ | hrun
      · rw [runBlocks_cons_of_le hbin.2, List.map_cons]
        cases type with
        | code =>
          rw [binBlocks_cons_of_isBin hbin, binBlocks_cons_of_not_isBin (hbin.not_isBin hcode.symm)]
          exact hrest.cons _
        | data =>
          rw [binBlocks_cons_of_isBin hbin, binBlocks_cons_of_not_isBin (hbin.not_isBin hcode)]
          exact (hrest.cons _).trans (List.perm_middle.symm.append_right _)
      · have hnot : ∀ type, ¬ a.IsBin type := fun type hbin => hrun hbin.2
        rw [runBlocks_cons_of_lt (Nat.not_le.mp hrun), List.map_cons,
          binBlocks_cons_of_not_isBin (hnot _), binBlocks_cons_of_not_isBin (hnot _)]
        exact (hrest.cons _).trans List.perm_middle.symm
  rw [hperm.pairwise_iff Apart.symm, List.pairwise_append, List.pairwise_append]
  have hbins : ∀ type, (binBlocks h.live type).Pairwise Apart := fun type =>
    (List.pairwise_append.mp (hI.bins type).tiling.apart).1
  have hins : ∀ {type b}, b ∈ binBlocks h.live type → ∃ r ∈ h.state.binPages type,
      r.address ≤ b.address ∧ b.address + b.size ≤ r.address + r.size :=
    fun hb => (hI.bins _).inside (List.mem_append_left _ hb)
  refine ⟨⟨hbins _, hbins _, fun b hb c hc => ?_⟩, ?_, fun b hb c hc => ?_⟩
  · obtain ⟨r, hr, hin⟩ := hins hb
    obtain ⟨r', hr', hin'⟩ := hins hc
    exact apart_of_inside (hI.pages.apart_binPages hcode hr hr') hin hin'
  · rw [hI.runs.pairwise_iff Apart.symm]
    exact (List.pairwise_append.mp hI.pages.apart).2.1
  · have hc' := hI.runs.mem_iff.mp hc
    rcases List.mem_append.mp hb with hb | hb
    · obtain ⟨r, hr, hin⟩ := hins hb
      exact apart_of_inside (hI.pages.apart_blockPages hr hc') hin ⟨le_rfl, le_rfl⟩
    · obtain ⟨r, hr, hin⟩ := hins hb
      exact apart_of_inside (hI.pages.apart_blockPages hr hc') hin ⟨le_rfl, le_rfl⟩

lemma History.Inv.perm (hI : h.Inv) (hl : h.live.Perm live) : History.Inv ⟨h.state, live⟩ :=
  ⟨hI.pages, fun type => (hI.bins type).perm (binBlocks_perm hl),
    (runBlocks_perm hl).symm.trans hI.runs, fun a ha => hI.valid a (hl.mem_iff.mpr ha)⟩

lemma History.Inv.exists_index (hI : h.Inv) (ha : a ∈ h.live) (hbin : a.IsBin type) :
    ∃ i < maxPoolIndex, a.block.size = blockSize i ∧ a.block.address % blockSize i = 0 := by
  obtain ⟨i, hi, hsize, hali⟩ :=
    (hI.bins type).buddy _ (List.mem_append_left _ (mem_binBlocks ha hbin))
  exact ⟨i, index_lt_of_size_le (hsize ▸ hbin.2) hi, hsize, hali⟩

lemma History.Inv.lt_top (hI : h.Inv) (ha : a ∈ h.live) :
    a.block.address + a.block.size < 2 ^ 64 := by
  obtain ⟨r, hr, -, hle⟩ := hI.inside ha
  exact lt_of_le_of_lt hle (hI.pages.isPages r hr).lt_top

lemma History.Inv.freePool_bin (hI : h.Inv) (ha : a ∈ h.live) (hbin : a.IsBin type) :
    ∃ i < maxPoolIndex, a.block.size = blockSize i ∧ a.block.address % blockSize i = 0 ∧
      smmFreePool h.state a.buffer = .ok (.success,
        ({ h.state with mem := clearBlock h.state.mem a.block.address a.block.tail } :
          State).insertHeadList type i a.block.address) := by
  obtain ⟨i, hi, hsize, hali⟩ := hI.exists_index ha hbin
  have hfil := (hI.valid a ha).filled
  rw [hbin.1] at hfil
  exact ⟨i, hi, hsize, hali, smmInternalFreePool_bin hfil hi hsize hali (hI.lt_top ha)⟩

lemma History.Inv.freePool_pages (hI : h.Inv) (ha : a ∈ h.live)
    (hsize : maxPoolSize < a.block.size) :
    smmFreePool h.state a.buffer = freePoolPages h.state a.block.address := by
  have hrun := hI.runs.mem_iff.mp (mem_runBlocks ha (Nat.not_le.mpr hsize))
  exact smmInternalFreePool_pages (hI.valid a ha).filled
    (hI.pages.isPages _ (List.mem_append_right _ hrun)) hsize

lemma inv_of_freed_bin {i : ℕ} (hI : History.Inv ⟨s, a :: live⟩) (hbin : a.IsBin type)
    (hi : i < maxPoolIndex) (hsize : a.block.size = blockSize i)
    (hs' : s' = ({ s with mem := clearBlock s.mem a.block.address a.block.tail } :
      State).insertHeadList type i a.block.address) : History.Inv ⟨s', live⟩ := by
  have hbins : s'.binPages = s.binPages := by rw [hs']; rfl
  have hblo : s'.blockPages = s.blockPages := by rw [hs']; rfl
  have hmem : s'.mem = clearBlock s.mem a.block.address a.block.tail := by rw [hs']; rfl
  have hlis : s'.mSmmPoolLists =
      (s.insertHeadList type i a.block.address).mSmmPoolLists := by rw [hs']; rfl
  have hle : poolOverhead ≤ a.block.size := hsize ▸ le_trans (by decide) (le_blockSize i)
  refine ⟨hI.pages.keep (by rw [hs']; exact .refl hI.pages.freeList)
    (obtained_congr hbins hblo), fun type' => ?_, ?_, fun a' ha' => ?_⟩
  · have hold := hI.bins type'
    by_cases hne : type' = type
    · subst hne
      have hfree : (freeBlocks s' type').Perm (a.block :: freeBlocks s type') := by
        have hb : a.block = ⟨a.block.address, blockSize i⟩ := by rw [← hsize]
        rw [freeBlocks_congr (congrFun hlis type'), hb]
        exact freeBlocks_insertHeadList hi
      have hperm : (a.block :: binBlocks live type' ++ freeBlocks s type').Perm
          (binBlocks live type' ++ freeBlocks s' type') :=
        List.perm_middle.symm.trans (hfree.symm.append_left _)
      dsimp only at hold
      rw [binBlocks_cons_of_isBin hbin] at hold
      refine ⟨?_, fun b hb => hold.buddy b (hperm.mem_iff.mpr hb)⟩
      dsimp only
      rw [hbins]
      exact hold.tiling.perm hperm
    · have hfree : freeBlocks s' type' = freeBlocks s type' := by
        rw [freeBlocks_congr (congrFun hlis type')]
        exact freeBlocks_setList_of_ne hne
      dsimp only at hold
      rw [binBlocks_cons_of_not_isBin (hbin.not_isBin hne)] at hold
      obtain ⟨htil, hbud⟩ := hold
      rw [← hfree] at htil hbud
      rw [← hbins] at htil
      exact ⟨htil, hbud⟩
  · have hold := hI.runs
    dsimp only at hold ⊢
    rw [runBlocks_cons_of_le hbin.2] at hold
    rw [hblo]
    exact hold
  · refine (hI.valid a' (List.mem_cons_of_mem _ ha')).congr fun x hx _ => ?_
    dsimp only
    rw [hmem]
    refine clearBlock_of_not_contains hle fun hax => ?_
    have hapa := hI.live_apart
    rw [List.map_cons, List.pairwise_cons] at hapa
    exact disjoint_of_apart (hapa.1 _ (List.mem_map_of_mem ha')) x ⟨hax, hx⟩

lemma inv_of_freePoolPages (hI : History.Inv ⟨s, a :: live⟩) (hsize : maxPoolSize < a.block.size)
    (h : freePoolPages s a.block.address = .ok (status, s')) :
    History.Inv ⟨s', if status.isError then a :: live else live⟩ := by
  have hval := hI.valid a List.mem_cons_self
  have hrun : a.block ∈ s.blockPages :=
    hI.runs.mem_iff.mp (mem_runBlocks List.mem_cons_self (Nat.not_le.mpr hsize))
  have hpag := hI.pages.isPages _ (List.mem_append_right _ hrun)
  have hmul : 4096 * efiSizeToPages a.block.size = a.block.size := by
    have hali := hpag.size_aligned
    unfold efiSizeToPages efiPageSize
    rw [if_neg (Decidable.not_not.mpr hali)]
    omega
  unfold freePoolPages at h
  dsimp only at h
  rw [hval.filled.size] at h
  obtain ⟨⟨status₁, page⟩, hfree, hrest⟩ := bind_eq_ok.mp h
  obtain ⟨rfl, rfl⟩ := Prod.mk.inj (pure_eq_ok.mp hrest)
  have hlt : a.block.address + 4096 * efiSizeToPages a.block.size < 2 ^ 64 := by
    rw [hmul]
    exact hpag.lt_top
  obtain ⟨hlist, hfre⟩ := SmmPage.smmInternalFreePages_free hI.pages.freeList hlt hfree
  dsimp only
  cases herr : status₁.isError with
  | true =>
    simp only [if_true]
    have hkee : KeepsFree s.page page := by
      refine ⟨hlist, fun x hx => ?_⟩
      rcases hfre x hx with hold | ⟨hok, -⟩
      · exact hold
      · rw [herr] at hok
        exact absurd hok (by decide)
    have hsame : ({ s with page := page } : State).obtained = s.obtained := rfl
    refine ⟨hI.pages.keep hkee hsame, fun type' => ?_, hI.runs, hI.valid⟩
    exact ⟨(hI.bins type').tiling, (hI.bins type').buddy⟩
  | false =>
    simp only [Bool.false_eq_true, if_false]
    have hera := List.perm_cons_erase hrun
    have hobt : s.obtained.Perm (a.block :: (s.binPages .code ++ s.binPages .data ++
        s.blockPages.erase a.block)) :=
      (hera.append_left _).trans List.perm_middle
    have hapa := (hobt.pairwise_iff Apart.symm).mp hI.pages.apart
    rw [List.pairwise_cons] at hapa
    have hsub : ∀ r ∈ s.binPages .code ++ s.binPages .data ++ s.blockPages.erase a.block,
        r ∈ s.obtained := fun r hr => hobt.mem_iff.mpr (List.mem_cons_of_mem _ hr)
    refine ⟨⟨hlist, fun r hr => ?_, fun r hr x hx hxfr => ?_, ?_⟩, fun type' => ?_, ?_,
      fun a' ha' => hI.valid a' (List.mem_cons_of_mem _ ha')⟩
    · exact hI.pages.isPages r (hsub r hr)
    · rcases hfre x hxfr with hold | ⟨-, hin⟩
      · exact hI.pages.notFree r (hsub r hr) x hx hold
      · refine disjoint_of_apart (hapa.1 r hr) x ⟨⟨hin.1, ?_⟩, hx⟩
        rw [← hmul]
        exact hin.2
    · exact hapa.2
    · have hnot : ¬ a.IsBin type' := fun hbin => absurd hbin.2 (Nat.not_le.mpr hsize)
      have hold := hI.bins type'
      dsimp only at hold
      rw [binBlocks_cons_of_not_isBin hnot] at hold
      exact ⟨hold.tiling, hold.buddy⟩
    · have hold := hI.runs
      dsimp only at hold
      rw [runBlocks_cons_of_lt hsize] at hold
      exact List.Perm.cons_inv (hold.trans hera)

lemma poolIndexOf_spec {n : ℕ} (hpos : 0 < n) (hle : n ≤ maxPoolSize) :
    poolIndexOf n < maxPoolIndex ∧ n ≤ blockSize (poolIndexOf n) := by
  have hall : ∀ k < 33, 0 < k →
      (if k &&& sub64 k 1 ≠ 0 then u64 (uintn (highBitSet32 (u32 k)) + 1)
        else uintn (highBitSet32 (u32 k))) < maxPoolIndex ∧
      k ≤ 2 ^ (if k &&& sub64 k 1 ≠ 0 then u64 (uintn (highBitSet32 (u32 k)) + 1)
        else uintn (highBitSet32 (u32 k))) := by
    decide
  have hmax : maxPoolSize = 2048 := by decide
  have hrou : u64 (n + (minPoolSize - 1)) >>> minPoolShift = (n + 63) / 64 := by
    have hmin : minPoolSize - 1 = 63 := by decide
    rw [hmin, u64_of_lt (by omega), Nat.shiftRight_eq_div_pow]
    rfl
  unfold poolIndexOf
  dsimp only
  rw [hrou, blockSize_eq]
  obtain ⟨hlt, hk⟩ := hall ((n + 63) / 64) (by omega) (by omega)
  refine ⟨hlt, ?_⟩
  omega

/-- What an allocation does: if it fails the lists are as they were, and otherwise it returns a
block, unless the sum of the size and the overhead wraps around. -/
lemma smmAllocatePool_spec (hI : h.Inv)
    (hallo : smmAllocatePool h.state poolType size = .ok (status, buffer, s')) :
    (status.isError = true →
      s'.mSmmPoolLists = h.state.mSmmPoolLists ∧ History.Inv ⟨s', h.live⟩) ∧
    (status.isError = false → size + poolOverhead < 2 ^ 64 →
      ∃ b : Block, buffer = b.address + sizeOfPoolHeader ∧ headSize s'.mem b.address = b.size ∧
        History.Inv ⟨s', ⟨b, poolType, size⟩ :: h.live⟩) := by
  unfold smmAllocatePool smmInternalAllocatePool at hallo
  split_ifs at hallo with hinva
  · obtain ⟨rfl, -, rfl⟩ : .invalidParameter = status ∧ 0 = buffer ∧ h.state = s' := by
      simpa using hallo
    exact ⟨fun _ => ⟨rfl, hI⟩, nofun⟩
  · obtain ⟨type, rfl⟩ : ∃ type : SmmPoolType, poolType = type.memoryType := by
      by_cases hcode : poolType = efiRuntimeServicesCode
      · exact ⟨.code, hcode⟩
      · exact ⟨.data, Decidable.not_not.mp fun hdata => hinva ⟨hcode, hdata⟩⟩
    have htype : type.memoryType < 2 ^ 32 := by
      cases type with
      | code => decide
      | data => decide
    dsimp only at hallo
    generalize hreq : u64 (size + poolOverhead) = request at hallo
    by_cases hlar : request > maxPoolSize
    · have hmax : maxPoolSize = 2048 := by decide
      have hn : 0 < efiSizeToPages request := by
        unfold efiSizeToPages efiPageSize
        split_ifs <;> omega
      rw [if_pos hlar] at hallo
      obtain ⟨⟨status₁, address, page⟩, hpag, hrest⟩ := bind_eq_ok.mp hallo
      obtain ⟨hkee, hnew⟩ := hI.pages.allocate hn hpag
      dsimp only at hrest
      split_ifs at hrest with herr
      · obtain ⟨rfl, -, rfl⟩ : status₁ = status ∧ 0 = buffer ∧
            { h.state with page := page } = s' := by
          simpa using pure_eq_ok.mp hrest
        have hsame : ({ h.state with page := page } : State).obtained = h.state.obtained := rfl
        refine ⟨fun _ => ⟨rfl, hI.pages.keep hkee hsame, fun type' => ?_, hI.runs, hI.valid⟩,
          fun hok => by simp [herr] at hok⟩
        exact ⟨(hI.bins type').tiling, (hI.bins type').buddy⟩
      · obtain ⟨rfl, hpair⟩ := Prod.mk.inj (pure_eq_ok.mp hrest)
        obtain ⟨rfl, hs'⟩ := Prod.mk.inj hpair
        obtain ⟨hsize, hnew⟩ := hnew (by simpa using herr)
        rw [hsize] at hs'
        have hle : request ≤ 4096 * efiSizeToPages request := by
          unfold efiSizeToPages efiPageSize
          split_ifs <;> omega
        refine ⟨nofun, fun _ hwrap => ?_⟩
        rw [u64_of_lt hwrap] at hreq
        have hinv : History.Inv ⟨s', ⟨⟨address, 4096 * efiSizeToPages request⟩,
            type.memoryType, size⟩ :: h.live⟩ := by
          refine inv_of_newPages hI ?_ ?_ ?_ ?_ ?_ ?_ ?_
          · rw [← hs']
            exact hnew
          · rw [← hs']
          · rw [← hs']
          · rw [← hs']
          · rw [← hs']
          · dsimp only
            omega
          · dsimp only
            omega
        exact ⟨_, rfl, (hinv.valid _ List.mem_cons_self).filled.size, hinv⟩
    · rw [if_neg hlar] at hallo
      obtain ⟨⟨status₁, hdr, s₁⟩, hind, hrest⟩ := bind_eq_ok.mp hallo
      unfold internalAllocPoolByIndex at hind
      rw [uefiMemoryTypeToSmmPoolType_memoryType, ok_bind] at hind
      obtain ⟨⟨⟩, hass, hbel⟩ := bind_eq_ok.mp hind
      obtain ⟨hP', hsame, hallocated⟩ :=
        allocPoolBelow_spec hI.pages (hI.bins type) htype (Nat.sub_le _ _) hbel
      dsimp only at hrest
      split_ifs at hrest with herr
      · obtain ⟨rfl, -, rfl⟩ : status₁ = status ∧ 0 = buffer ∧ s₁ = s' := by
          simpa using pure_eq_ok.mp hrest
        obtain ⟨hmem, hlis, hbins, hblo⟩ := hsame herr
        refine ⟨fun _ => ⟨hlis, hP', fun type' => ?_, ?_, ?_⟩, fun hok => by simp [herr] at hok⟩
        · obtain ⟨htil, hbud⟩ := hI.bins type'
          have hfree : freeBlocks s₁ type' = freeBlocks h.state type' :=
            freeBlocks_congr (by rw [hlis])
          rw [← hfree] at htil hbud
          rw [← hbins] at htil
          exact ⟨htil, hbud⟩
        · dsimp only
          rw [hblo]
          exact hI.runs
        · dsimp only
          rw [hmem]
          exact hI.valid
      · obtain ⟨rfl, hpair⟩ := Prod.mk.inj (pure_eq_ok.mp hrest)
        obtain ⟨rfl, rfl⟩ := Prod.mk.inj hpair
        refine ⟨nofun, fun _ hwrap => ?_⟩
        rw [u64_of_lt hwrap] at hreq
        have hpos : 0 < request := hreq ▸ Nat.add_pos_right _ (by decide)
        obtain ⟨hlt, hle⟩ := poolIndexOf_spec hpos (not_lt.mp hlar)
        have hall' := hallocated (by simpa using herr)
        rw [Nat.sub_sub_self hlt.le] at hall'
        have hmax : blockSize (poolIndexOf request) ≤ maxPoolSize := by
          have hall : ∀ i < maxPoolIndex, blockSize i ≤ maxPoolSize := by decide
          exact hall _ hlt
        have hinv := inv_of_allocated hI hP' hall' hmax (hreq.trans_le hle)
        exact ⟨_, rfl, hall'.filled.size, hinv⟩

lemma History.Inv.call (hI : h.Inv) (ha : h.Admits c) (hs : c.Sound)
    (hc : h.call c = .ok (status, h')) : h'.Inv := by
  cases c with
  | allocatePool poolType size =>
    obtain ⟨⟨status₁, buffer, s'⟩, hall, hrest⟩ := bind_eq_ok.mp hc
    obtain ⟨rfl, rfl⟩ := Prod.mk.inj (pure_eq_ok.mp hrest)
    obtain ⟨hfai, hok⟩ := smmAllocatePool_spec hI hall
    cases herr : status₁.isError with
    | true =>
      simp only [if_true]
      exact (hfai herr).2
    | false =>
      simp only [Bool.false_eq_true, if_false]
      obtain ⟨b, rfl, hsize, hinv⟩ := hok herr hs
      have hlt := hinv.lt_top List.mem_cons_self
      have hhdr : sub64 (b.address + sizeOfPoolHeader) sizeOfPoolHeader = b.address := by
        grind [poolOverhead, sizeOfPoolHeader, sizeOfPoolTail, sub64, u64]
      rw [hhdr, hsize]
      exact hinv
  | freePool buffer =>
    obtain ⟨⟨status₁, s'⟩, hfree, hrest⟩ := bind_eq_ok.mp hc
    obtain ⟨rfl, rfl⟩ := Prod.mk.inj (pure_eq_ok.mp hrest)
    rcases ha with rfl | ⟨a, ha, hbuf⟩
    · obtain ⟨rfl, rfl⟩ : .invalidParameter = status₁ ∧ h.state = s' := by
        simpa [smmFreePool, smmInternalFreePool] using hfree
      exact hI
    · obtain ⟨a', l₁, l₂, -, ha', hlive, hera⟩ :=
        @List.exists_of_eraseP _ (fun a => decide (a.buffer = buffer)) h.live a ha
          (decide_eq_true hbuf)
      have hperm : h.live.Perm (a' :: (l₁ ++ l₂)) := hlive ▸ List.perm_middle
      have hI' : History.Inv ⟨h.state, a' :: (l₁ ++ l₂)⟩ := hI.perm hperm
      have ha'' : a' ∈ h.live := hperm.mem_iff.mpr List.mem_cons_self
      rw [← of_decide_eq_true ha'] at hfree
      rw [hera]
      rcases (hI.valid a' ha'').cases with ⟨type, hbin⟩ | hrun
      · obtain ⟨i, hi, hsize, -, heq⟩ := hI.freePool_bin ha'' hbin
        obtain ⟨rfl, hs'⟩ := Prod.mk.inj (Except.ok.inj (heq.symm.trans hfree))
        exact inv_of_freed_bin hI' hbin hi hsize hs'.symm
      · rw [hI.freePool_pages ha'' (Nat.not_le.mp hrun)] at hfree
        have hinv := inv_of_freePoolPages hI' (Nat.not_le.mp hrun) hfree
        cases herr : status₁.isError with
        | true =>
          simp only [herr, if_true] at hinv ⊢
          exact hinv.perm hperm.symm
        | false =>
          grind
  | write address bytes =>
    obtain ⟨-, rfl⟩ := Prod.mk.inj (Except.ok.inj hc)
    have hsame : ({ h.state with mem := writeBytes h.state.mem address bytes } : State).obtained =
      h.state.obtained := rfl
    refine ⟨hI.pages.keep (.refl hI.pages.freeList) hsame, fun type => ?_, hI.runs,
      fun a hmem => ?_⟩
    · exact ⟨(hI.bins type).tiling, (hI.bins type).buddy⟩
    · refine (hI.valid a hmem).congr fun x hx hnot => ?_
      by_contra hne
      obtain ⟨hle, hlt⟩ := writeBytes_ne hne
      exact hnot (ha a hmem x hle hlt hx)

lemma not_isUsed_of_regionType {r : SmramDescriptor}
    (h : SmmPage.regionType r.regionState = SmmPage.regionType 0) : ¬ r.IsUsed := by
  intro hused
  unfold SmramDescriptor.IsUsed at hused
  rw [SmmPage.regionType, if_pos hused] at h
  exact absurd h (by decide)

lemma freeList_addRegions {page page' : SmmPage.State} {ranges : List SmramDescriptor}
    (hl : FreeList page.mSmmMemoryMap)
    (hr : ∀ r ∈ ranges, ¬ r.IsUsed → SoundRange r.cpuStart r.physicalSize)
    (h : addRegions page ranges = .ok page') : FreeList page'.mSmmMemoryMap := by
  induction ranges generalizing page with
  | nil =>
    obtain rfl := pure_eq_ok.mp h
    exact hl
  | cons r ranges ih =>
    unfold addRegions at h
    rw [List.foldlM_cons] at h
    obtain ⟨page₁, hadd, hrest⟩ := bind_eq_ok.mp h
    have hl₁ := SmmPage.smmAddMemoryRegion_free hl
      (fun htype => hr r List.mem_cons_self (not_isUsed_of_regionType htype)) hadd
    exact ih hl₁ (fun r' hr' => hr r' (List.mem_cons_of_mem _ hr')) hrest

lemma inv_start {mem : Memory} {smramRanges : List SmramDescriptor}
    (hr : ∀ r ∈ smramRanges, ¬ r.IsUsed → SoundRange r.cpuStart r.physicalSize)
    (h : smmInitializeMemoryServices mem smramRanges = .ok s) : History.Inv ⟨s, []⟩ := by
  obtain ⟨page₁, hfree, hrest⟩ := bind_eq_ok.mp h
  obtain ⟨page₂, hused, hres'⟩ := bind_eq_ok.mp hrest
  obtain rfl := pure_eq_ok.mp hres'
  have hl₁ : FreeList page₁.mSmmMemoryMap := freeList_addRegions SmmPage.freeList_nil
    (fun r hmem => hr r (List.mem_filter.mp hmem).1) hfree
  have hl₂ : FreeList page₂.mSmmMemoryMap := freeList_addRegions hl₁
    (fun r hmem => hr r (List.mem_filter.mp hmem).1) hused
  have hlis : ∀ type, freeBlocks { initialState mem with page := page₂ } type = [] := by
    intro type
    rfl
  refine ⟨⟨hl₂, by simp [State.obtained, initialState], by simp [State.obtained, initialState],
    by simp [State.obtained, initialState]⟩, fun type => ⟨?_, ?_⟩, .refl _, by simp⟩
  · rw [hlis]
    exact tilingList_nil
  · rw [hlis]
    exact fun b hb => absurd hb (List.not_mem_nil)

lemma inv_of_reaches (hr : Reaches (fun h c => h.Admits c ∧ c.Sound) h) : h.Inv := by
  induction hr with
  | start hr h => exact inv_start hr h
  | step hr hP hc ih => exact ih.call hP.1 hP.2 hc

lemma nodup_of_apart {i : ℕ} (hapa : (freeBlocks s type).Pairwise Apart) (hi : i < maxPoolIndex) :
    (s.mSmmPoolLists type i).Nodup := by
  have hsub : ((s.mSmmPoolLists type i).map fun a => (⟨a, blockSize i⟩ : Block)).Sublist
      (freeBlocks s type) := by
    unfold freeBlocks freeBlocksOf
    rw [List.flatMap_def]
    exact List.sublist_flatten_of_mem (List.mem_map_of_mem (List.mem_range.mpr hi))
  have hlist := hapa.sublist hsub
  rw [List.pairwise_map] at hlist
  refine hlist.imp fun {a a'} h heq => ?_
  have hpos := le_blockSize i
  subst heq
  unfold Apart at h
  rw [stop_block, start_block] at h
  dsimp only at h
  omega

lemma History.Inv.inOrder (hI : h.Inv) : h.InOrder where
  usable a ha := by
    have hfits := (hI.valid a ha).fits
    unfold poolOverhead sizeOfPoolHeader sizeOfPoolTail at hfits
    unfold Allocation.buffer Block.tail sizeOfPoolHeader sizeOfPoolTail
    omega
  filled a ha := (hI.valid a ha).filled
  inside a ha := hI.inside ha
  live_apart := (List.pairwise_map.mp hI.live_apart).imp disjoint_of_apart
  free_apart a ha type b hb := by
    refine disjoint_of_apart ?_
    obtain ⟨r, hr, hin⟩ := (hI.bins type).inside (List.mem_append_right _ hb)
    rcases (hI.valid a ha).cases with ⟨type', hbin⟩ | hrun
    · have hmem := mem_binBlocks ha hbin
      by_cases hne : type' = type
      · subst hne
        exact (List.pairwise_append.mp (hI.bins type').tiling.apart).2.2 _ hmem _ hb
      · obtain ⟨r', hr', hin'⟩ := (hI.bins type').inside (List.mem_append_left _ hmem)
        exact apart_of_inside (hI.pages.apart_binPages hne hr' hr) hin' hin
    · have hrun' := hI.runs.mem_iff.mp (mem_runBlocks ha hrun)
      exact apart_of_inside (hI.pages.apart_blockPages hr hrun').symm ⟨le_rfl, le_rfl⟩ hin
  free_once type :=
    (List.pairwise_append.mp (hI.bins type).tiling.apart).2.1.imp disjoint_of_apart
  nodup type _ hi := nodup_of_apart (List.pairwise_append.mp (hI.bins type).tiling.apart).2.1 hi
  aligned type i hi a ha := by
    have hmem : (⟨a, blockSize i⟩ : Block) ∈ freeBlocks h.state type :=
      mem_freeBlocks.mpr ⟨i, hi, rfl, ha⟩
    obtain ⟨j, -, hsize, hali⟩ := (hI.bins type).buddy _ (List.mem_append_right _ hmem)
    dsimp only at hsize hali
    rwa [← hsize] at hali
  partition type x := by
    obtain ⟨-, -, hins, hcov, -⟩ := (hI.bins type).tiling.tiling
    constructor
    · rintro ⟨r, hr, hx⟩
      exact hcov r hr x hx.1 hx.2
    · rintro ⟨b, hb, hx⟩
      obtain ⟨r, hr, hle, hle'⟩ := hins b hb
      exact ⟨r, hr, hle.trans hx.1, lt_of_lt_of_le hx.2 hle'⟩
  pages_apart := hI.pages.apart.imp disjoint_of_apart
  pages_not_free := hI.pages.notFree

/-- While no sum of a size and the overhead wraps around, blocks are apart and partition the pages,
an allocation that fails leaves the lists, and a block that is handed out can be freed: no check
fails, and the pages of a large block go to the services for pages. -/
theorem inOrder_of_reaches_pool (hr : Reaches (fun h c => h.Admits c ∧ c.Sound) h) :
    h.InOrder ∧
      (∀ poolType size status buffer s',
        smmAllocatePool h.state poolType size = .ok (status, buffer, s') →
          status.isError = true → s'.mSmmPoolLists = h.state.mSmmPoolLists) ∧
      (∀ a ∈ h.live, a.block.size ≤ maxPoolSize →
        ∃ s', smmFreePool h.state a.buffer = .ok (.success, s')) ∧
      ∀ a ∈ h.live, maxPoolSize < a.block.size →
        smmFreePool h.state a.buffer = freePoolPages h.state a.block.address := by
  have hI := inv_of_reaches hr
  refine ⟨hI.inOrder, fun poolType size status buffer s' halloc herr => ?_, fun a ha hsize => ?_,
    fun a ha hsize => hI.freePool_pages ha hsize⟩
  · exact ((smmAllocatePool_spec hI halloc).1 herr).1
  · obtain ⟨type, htype⟩ := (hI.valid a ha).type
    obtain ⟨i, -, -, -, heq⟩ := hI.freePool_bin ha ⟨htype, hsize⟩
    exact ⟨_, heq⟩

/-- One region, and a block of each kind. -/
def smallRun : Except Halt (EfiStatus × History) := do
  let s ← smmInitializeMemoryServices (fun _ => 0) [⟨0x10000, 0x10000, 0⟩]
  (⟨s, []⟩ : History).call (.allocatePool efiRuntimeServicesData 100)

theorem inOrder_of_reaches_pool_small : ∃ status h, smallRun = .ok (status, h) ∧ h.InOrder := by
  have hrun : smallRun.toOption.isSome = true := by decide
  cases hok : smallRun with
  | error e =>
    rw [hok] at hrun
    exact absurd hrun (by simp [Except.toOption])
  | ok r =>
    obtain ⟨s, hstart, hcall⟩ := bind_eq_ok.mp hok
    have hsound : ∀ r ∈ [(⟨0x10000, 0x10000, 0⟩ : SmramDescriptor)], ¬ r.IsUsed →
        SoundRange r.cpuStart r.physicalSize := by
      intro r hr _
      obtain rfl := List.mem_singleton.mp hr
      exact ⟨by decide, by decide, by decide⟩
    have hreach : Reaches (fun h c => h.Admits c ∧ c.Sound) ⟨s, []⟩ := .start hsound hstart
    have hcall' : (⟨s, []⟩ : History).call (.allocatePool efiRuntimeServicesData 100) =
      .ok (r.1, r.2) := hcall
    refine ⟨r.1, r.2, rfl, (inOrder_of_reaches_pool (hreach.step ⟨?_, ?_⟩ hcall')).1⟩
    · exact (by decide : 100 < 2 ^ 64)
    · exact (by decide : 100 + poolOverhead < 2 ^ 64)

/-- A size just below the top is asked for. -/
def wrappedRun : Except Halt (EfiStatus × History) := do
  let s ← smmInitializeMemoryServices (fun _ => 0) [⟨0x10000, 0x10000, 0⟩]
  (⟨s, []⟩ : History).call (.allocatePool efiRuntimeServicesData (2 ^ 64 - 8))

/-- The sum with the overhead is 32, and the smallest block is returned. -/
theorem not_inOrder_wrapped : ¬ ∀ h, Reaches History.Admits h → h.InOrder := by
  intro hall
  have hrun : (wrappedRun.toOption.any fun r => r.2.live.any fun a =>
      ¬ a.buffer + a.request ≤ a.block.tail) = true := by
    decide
  cases hok : wrappedRun with
  | error e =>
    rw [hok] at hrun
    exact absurd hrun (by simp [Except.toOption])
  | ok r =>
    obtain ⟨s, hstart, hcall⟩ := bind_eq_ok.mp hok
    have hsound : ∀ r ∈ [(⟨0x10000, 0x10000, 0⟩ : SmramDescriptor)], ¬ r.IsUsed →
        SoundRange r.cpuStart r.physicalSize := by
      intro r hr _
      obtain rfl := List.mem_singleton.mp hr
      exact ⟨by decide, by decide, by decide⟩
    have hcall' : (⟨s, []⟩ : History).call (.allocatePool efiRuntimeServicesData (2 ^ 64 - 8)) =
      .ok (r.1, r.2) := hcall
    have hadmits : (⟨s, []⟩ : History).Admits
        (.allocatePool efiRuntimeServicesData (2 ^ 64 - 8)) := (by decide : 2 ^ 64 - 8 < 2 ^ 64)
    have hreach : Reaches History.Admits r.2 := .step (.start hsound hstart) hadmits hcall'
    rw [hok] at hrun
    obtain ⟨a, ha, hnot⟩ := List.any_eq_true.mp hrun
    exact of_decide_eq_true hnot ((hall _ hreach).usable a ha)

end Edk2.SmmPool
