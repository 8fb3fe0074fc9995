import Edk2.Lib.Bytes
import Edk2.SmmPage.Model
import Edk2.Lib.Tiling

/-!
# The SMM pool

`PiSmmCore/Pool.c` for X64 with the heap guard off. Memory is a store of bytes, in which each
block has its header and its tail; the free blocks of a size are linked in a list, which is the
list of their addresses here. `binPages` and `blockPages` are not in the source: they record the
pages that the pool took.
-/

namespace Edk2.SmmPool

open Pool (MemoryType efiRuntimeServicesCode efiRuntimeServicesData assertThat efiSizeToPages)
open SmmPage (allocateAnyPages efiPagesToSize smmInternalAllocatePages smmInternalFreePages)
open Bytes

inductive SmmPoolType
  | code
  | data
deriving DecidableEq, Repr

def minPoolShift : ℕ := 6

def minPoolSize : ℕ := 1 <<< minPoolShift

def maxPoolShift : ℕ := efiPageShift - 1

def maxPoolSize : ℕ := 1 <<< maxPoolShift

def maxPoolIndex : ℕ := maxPoolShift - minPoolShift + 1

/-- `SIGNATURE_32 ('p','h','d','0')`. -/
def poolHeadSignature : ℕ := 0x30646870

/-- `SIGNATURE_32 ('p','t','a','l')`. -/
def poolTailSignature : ℕ := 0x6C617470

/-- `sizeof (POOL_HEADER)`. -/
def sizeOfPoolHeader : ℕ := 24

/-- `sizeof (POOL_TAIL)`. -/
def sizeOfPoolTail : ℕ := 16

def poolOverhead : ℕ := sizeOfPoolHeader + sizeOfPoolTail

def uefiMemoryTypeToSmmPoolType (memoryType : MemoryType) : Except Halt SmmPoolType :=
  if memoryType = efiRuntimeServicesCode then .ok .code
  else if memoryType = efiRuntimeServicesData then .ok .data
  else .error .assert

def highBitSet32 (operand : ℕ) : ℤ := if operand = 0 then -1 else operand.log2

/-- A conversion from `INTN` to `UINTN`. -/
def uintn (n : ℤ) : ℕ := (n % 2 ^ 64).toNat

abbrev Memory := ℕ → UInt8

/-- A little-endian field of a structure in memory. -/
def readField (m : Memory) (address size : ℕ) : ℕ := fieldValue (bytesAt m address size)

def writeField (m : Memory) (address size value : ℕ) : Memory :=
  writeBytes m address (field size value)

/-- `Hdr->Header.Signature`. -/
def headSignature (m : Memory) (hdr : ℕ) : ℕ := readField m hdr 4

def headAvailable (m : Memory) (hdr : ℕ) : ℕ := readField m (hdr + 4) 1

def headType (m : Memory) (hdr : ℕ) : ℕ := readField m (hdr + 8) 4

def headSize (m : Memory) (hdr : ℕ) : ℕ := readField m (hdr + 16) 8

def setHeadSignature (m : Memory) (hdr value : ℕ) : Memory := writeField m hdr 4 value

def setHeadAvailable (m : Memory) (hdr value : ℕ) : Memory := writeField m (hdr + 4) 1 value

def setHeadType (m : Memory) (hdr value : ℕ) : Memory := writeField m (hdr + 8) 4 value

def setHeadSize (m : Memory) (hdr value : ℕ) : Memory := writeField m (hdr + 16) 8 value

/-- `Tail->Signature`. -/
def tailSignature (m : Memory) (tail : ℕ) : ℕ := readField m tail 4

def tailSize (m : Memory) (tail : ℕ) : ℕ := readField m (tail + 8) 8

def setTailSignature (m : Memory) (tail value : ℕ) : Memory := writeField m tail 4 value

def setTailSize (m : Memory) (tail value : ℕ) : Memory := writeField m (tail + 8) 8 value

def headToTail (m : Memory) (hdr : ℕ) : ℕ := sub64 (u64 (hdr + headSize m hdr)) sizeOfPoolTail

/-- The header and the tail of a block that is handed out. -/
def fillBlock (m : Memory) (hdr size : ℕ) (poolType : MemoryType) : Memory :=
  let m := setHeadSignature m hdr poolHeadSignature
  let m := setHeadSize m hdr size
  let m := setHeadAvailable m hdr 0
  let m := setHeadType m hdr poolType
  let tail := headToTail m hdr
  let m := setTailSignature m tail poolTailSignature
  setTailSize m tail (headSize m hdr)

/-- The bytes of a block or of pages. -/
structure Block where
  address : ℕ
  size : ℕ
deriving DecidableEq, Repr

structure State where
  mem : Memory
  mSmmPoolLists : SmmPoolType → ℕ → List ℕ
  page : SmmPage.State
  /-- The pages that were split into blocks for each type. -/
  binPages : SmmPoolType → List Block
  /-- The pages that are handed out as blocks. -/
  blockPages : List Block

def State.setList (s : State) (type : SmmPoolType) (poolIndex : ℕ) (l : List ℕ) : State :=
  { s with mSmmPoolLists := fun type' index =>
      if type' = type ∧ index = poolIndex then l else s.mSmmPoolLists type' index }

/-- `InsertHeadList (&mSmmPoolLists[Type][PoolIndex], &Hdr->Link)`. -/
def State.insertHeadList (s : State) (type : SmmPoolType) (poolIndex hdr : ℕ) : State :=
  s.setList type poolIndex (hdr :: s.mSmmPoolLists type poolIndex)

/-- The state before any service: no list has a node and no page is known. -/
def initialState (mem : Memory) : State :=
  ⟨mem, fun _ _ => [], SmmPage.initialState, fun _ => [], []⟩

/-- An `EFI_SMRAM_DESCRIPTOR`. -/
structure SmramDescriptor where
  cpuStart : ℕ
  physicalSize : ℕ
  regionState : BitVec 64
deriving DecidableEq, Repr

def SmramDescriptor.IsUsed (r : SmramDescriptor) : Prop :=
  r.regionState &&& (SmmPage.efiAllocated ||| SmmPage.efiNeedsTesting |||
    SmmPage.efiNeedsEccInitialization) ≠ 0

instance (r : SmramDescriptor) : Decidable r.IsUsed := inferInstanceAs (Decidable (_ ≠ _))

def addRegions (page : SmmPage.State) (ranges : List SmramDescriptor) :
    Except Halt SmmPage.State :=
  ranges.foldlM (fun page r =>
    SmmPage.smmAddMemoryRegion page r.cpuStart r.physicalSize r.regionState) page

/-- `SmmInitializeMemoryServices`: the free ranges first, then the others. -/
def smmInitializeMemoryServices (mem : Memory) (smramRanges : List SmramDescriptor) :
    Except Halt State := do
  let page ← addRegions SmmPage.initialState (smramRanges.filter fun r => ¬ r.IsUsed)
  let page ← addRegions page (smramRanges.filter fun r => r.IsUsed)
  return { initialState mem with page := page }

/-! ### Allocating -/

/-- The lower half of a block goes to the list of its size; the answer is the upper half. -/
def splitBlock (s : State) (type : SmmPoolType) (poolIndex hdr : ℕ) : ℕ × State :=
  let m := setHeadSignature s.mem hdr 0
  let m := setHeadSize m hdr (headSize m hdr >>> 1)
  let m := setHeadAvailable m hdr 1
  let m := setHeadType m hdr 0
  let tail := headToTail m hdr
  let m := setTailSignature m tail 0
  let m := setTailSize m tail 0
  (u64 (hdr + headSize m hdr), ({ s with mem := m }).insertHeadList type poolIndex hdr)

/-- `InternalAllocPoolByIndex` for `PoolIndex`, which is this much below `MAX_POOL_INDEX`. -/
def allocPoolBelow (poolType : MemoryType) (type : SmmPoolType) :
    ℕ → State → Except Halt (EfiStatus × ℕ × State)
  | 0, s => do
    let (status, address, page) ← smmInternalAllocatePages s.page allocateAnyPages poolType
      (efiSizeToPages (maxPoolSize <<< 1)) 0
    if status.isError then return (.outOfResources, 0, { s with page := page })
    return (.success, address, { s with
      mem := fillBlock s.mem address (minPoolSize <<< maxPoolIndex) poolType
      page := page
      binPages := fun type' => if type' = type then
          ⟨address, efiPagesToSize (efiSizeToPages (maxPoolSize <<< 1))⟩ :: s.binPages type
        else s.binPages type' })
  | below + 1, s =>
    let poolIndex := maxPoolIndex - (below + 1)
    match s.mSmmPoolLists type poolIndex with
    | hdr :: rest =>
      .ok (.success, hdr, { s.setList type poolIndex rest with
        mem := fillBlock s.mem hdr (minPoolSize <<< poolIndex) poolType })
    | [] => do
      let (status, hdr, s) ← allocPoolBelow poolType type below s
      if status.isError then return (status, hdr, s)
      let (hdr, s) := splitBlock s type poolIndex hdr
      return (.success, hdr, { s with
        mem := fillBlock s.mem hdr (minPoolSize <<< poolIndex) poolType })

def internalAllocPoolByIndex (s : State) (poolType : MemoryType) (poolIndex : ℕ) :
    Except Halt (EfiStatus × ℕ × State) := do
  let type ← uefiMemoryTypeToSmmPoolType poolType
  assertThat (poolIndex ≤ maxPoolIndex)
  allocPoolBelow poolType type (maxPoolIndex - poolIndex) s

/-- The index of the smallest blocks that hold `size` bytes. -/
def poolIndexOf (size : ℕ) : ℕ :=
  let size := u64 (size + (minPoolSize - 1)) >>> minPoolShift
  let poolIndex := uintn (highBitSet32 (u32 size))
  if size &&& sub64 size 1 ≠ 0 then u64 (poolIndex + 1) else poolIndex

/-- The part of `SmmInternalAllocatePool` for blocks of whole pages. -/
def allocPoolPages (s : State) (poolType : MemoryType) (noPages : ℕ) :
    Except Halt (EfiStatus × ℕ × State) := do
  let (status, address, page) ← smmInternalAllocatePages s.page allocateAnyPages poolType noPages 0
  if status.isError then return (status, 0, { s with page := page })
  return (.success, address + sizeOfPoolHeader, { s with
    mem := fillBlock s.mem address (efiPagesToSize noPages) poolType
    page := page
    blockPages := ⟨address, efiPagesToSize noPages⟩ :: s.blockPages })

/-- `SmmInternalAllocatePool`; the answer is the address that `*Buffer` gets. -/
def smmInternalAllocatePool (s : State) (poolType : MemoryType) (size : ℕ) :
    Except Halt (EfiStatus × ℕ × State) :=
  if poolType ≠ efiRuntimeServicesCode ∧ poolType ≠ efiRuntimeServicesData then
    .ok (.invalidParameter, 0, s)
  else
    let size := u64 (size + poolOverhead)
    if size > maxPoolSize then allocPoolPages s poolType (efiSizeToPages size)
    else do
      let (status, hdr, s) ← internalAllocPoolByIndex s poolType (poolIndexOf size)
      if status.isError then return (status, 0, s)
      return (.success, hdr + sizeOfPoolHeader, s)

def smmAllocatePool (s : State) (poolType : MemoryType) (size : ℕ) :
    Except Halt (EfiStatus × ℕ × State) :=
  smmInternalAllocatePool s poolType size

/-! ### Freeing -/

def internalFreePoolByIndex (s : State) (hdr tail : ℕ) : Except Halt (EfiStatus × State) := do
  let size := headSize s.mem hdr
  assertThat (size &&& sub64 size 1 = 0)
  assertThat (hdr &&& sub64 size 1 = 0)
  assertThat (size ≥ minPoolSize)
  let type ← uefiMemoryTypeToSmmPoolType (headType s.mem hdr)
  let poolIndex := uintn (highBitSet32 (u32 size) - minPoolShift)
  let m := setHeadSignature s.mem hdr 0
  let m := setHeadAvailable m hdr 1
  let m := setHeadType m hdr 0
  let m := setTailSignature m tail 0
  let m := setTailSize m tail 0
  assertThat (poolIndex < maxPoolIndex)
  return (.success, ({ s with mem := m }).insertHeadList type poolIndex hdr)

/-- The pages of a block are given back. -/
def freePoolPages (s : State) (hdr : ℕ) : Except Halt (EfiStatus × State) := do
  let size := headSize s.mem hdr
  let (status, page) ← smmInternalFreePages s.page hdr (efiSizeToPages size)
  return (status, { s with
    page := page
    blockPages := if status.isError then s.blockPages else s.blockPages.erase ⟨hdr, size⟩ })

def smmInternalFreePool (s : State) (buffer : ℕ) : Except Halt (EfiStatus × State) :=
  if buffer = 0 then .ok (.invalidParameter, s)
  else do
    let hdr := sub64 buffer sizeOfPoolHeader
    assertThat (headSignature s.mem hdr = poolHeadSignature)
    assertThat (headAvailable s.mem hdr = 0)
    let tail := headToTail s.mem hdr
    assertThat (tailSignature s.mem tail = poolTailSignature)
    assertThat (headSize s.mem hdr = tailSize s.mem tail)
    if headSize s.mem hdr > maxPoolSize then
      assertThat (hdr % efiPageSize = 0)
      assertThat (headSize s.mem hdr % efiPageSize = 0)
      freePoolPages s hdr
    else internalFreePoolByIndex s hdr tail

def smmFreePool (s : State) (buffer : ℕ) : Except Halt (EfiStatus × State) :=
  smmInternalFreePool s buffer

end Edk2.SmmPool

/-!
## Blocks of the SMM pool

What is written into the header and the tail of a block is read back, and nothing outside of the
block changes. The free blocks of a type are those on its lists.
-/

namespace Edk2.SmmPool

open Pool (MemoryType)
open Bytes Extent

variable {m m' : Memory} {s : State} {b : Block} {type type' : SmmPoolType} {poolType : MemoryType}
  {hdr size poolIndex i a a' n n' value : ℕ} {l : List ℕ}

instance : Extent Block := ⟨fun b => b.address, fun b => b.address + b.size⟩

lemma start_block (b : Block) : start b = b.address := rfl

lemma stop_block (b : Block) : stop b = b.address + b.size := rfl

/-- The address lies in the block. -/
def Block.Contains (b : Block) (a : ℕ) : Prop := b.address ≤ a ∧ a < b.address + b.size

/-- Where the tail of a block lies. -/
def Block.tail (b : Block) : ℕ := b.address + b.size - sizeOfPoolTail

/-- The size of the blocks on the lists of an index. -/
def blockSize (poolIndex : ℕ) : ℕ := minPoolSize <<< poolIndex

lemma blockSize_eq (i : ℕ) : blockSize i = 64 * 2 ^ i := Nat.shiftLeft_eq _ _

lemma blockSize_succ (i : ℕ) : blockSize (i + 1) = 2 * blockSize i := by
  rw [blockSize_eq, blockSize_eq, Nat.pow_succ]
  omega

lemma le_blockSize (i : ℕ) : 64 ≤ blockSize i := by
  rw [blockSize_eq]
  exact Nat.le_mul_of_pos_right _ (Nat.two_pow_pos i)

/-! ### Fields -/

lemma readField_congr (h : ∀ x, a ≤ x → x < a + n → m x = m' x) :
    readField m a n = readField m' a n := by
  rw [readField, readField, bytesAt_congr h]

lemma readField_writeField_self : readField (writeField m a n value) a n = value % 256 ^ n := by
  have hself := @bytesAt_writeBytes_self _ m a (field n value)
  rw [length_field] at hself
  rw [readField, writeField, hself, fieldValue_field]

lemma readField_writeField_of_apart (h : a + n ≤ a' ∨ a' + n' ≤ a) :
    readField (writeField m a' n' value) a n = readField m a n := by
  rw [readField, writeField, bytesAt_writeBytes_of_apart (by rwa [length_field]), readField]

lemma writeField_of_lt (h : a < a') : writeField m a' n' value a = m a := writeBytes_of_lt h

lemma writeField_of_ge (h : a' + n' ≤ a) : writeField m a' n' value a = m a :=
  writeBytes_of_ge (by rwa [length_field])

/-- The header and the tail say that the block is handed out. -/
structure Block.Filled (m : Memory) (b : Block) (poolType : MemoryType) : Prop where
  signature : headSignature m b.address = poolHeadSignature
  available : headAvailable m b.address = 0
  type : headType m b.address = poolType
  size : headSize m b.address = b.size
  tailSignature : tailSignature m b.tail = poolTailSignature
  tailSize : tailSize m b.tail = b.size

lemma Block.Filled.congr (h : b.Filled m poolType)
    (hhead : ∀ x, b.address ≤ x → x < b.address + sizeOfPoolHeader → m' x = m x)
    (htail : ∀ x, b.tail ≤ x → x < b.tail + sizeOfPoolTail → m' x = m x) :
    b.Filled m' poolType := by
  have hfie : ∀ a n, b.address ≤ a → a + n ≤ b.address + 24 →
      readField m' a n = readField m a n := fun a n hle hlt =>
    readField_congr fun x hx hx' => hhead x (hle.trans hx) (lt_of_lt_of_le hx' hlt)
  have hfie' : ∀ a n, b.tail ≤ a → a + n ≤ b.tail + 16 →
      readField m' a n = readField m a n := fun a n hle hlt =>
    readField_congr fun x hx hx' => htail x (hle.trans hx) (lt_of_lt_of_le hx' hlt)
  constructor
  · exact (hfie _ _ le_rfl (by omega)).trans h.signature
  · exact (hfie _ _ (by omega) (by omega)).trans h.available
  · exact (hfie _ _ (by omega) (by omega)).trans h.type
  · exact (hfie _ _ (by omega) (by omega)).trans h.size
  · exact (hfie' _ _ le_rfl (by omega)).trans h.tailSignature
  · exact (hfie' _ _ (by omega) (by omega)).trans h.tailSize

lemma headToTail_eq (hsize : headSize m hdr = size) (hle : 16 ≤ size)
    (hlt : hdr + size < 2 ^ 64) : headToTail m hdr = hdr + size - 16 := by
  unfold headToTail
  rw [hsize, u64_of_lt hlt]
  unfold sub64 u64 sizeOfPoolTail
  omega

lemma writeField_of_outside (ha : ¬ b.Contains a) (hlo : b.address ≤ a')
    (hhi : a' + n' ≤ b.address + b.size) : writeField m a' n' value a = m a := by
  unfold Block.Contains at ha
  by_cases hbel : a < b.address
  · exact writeField_of_lt (hbel.trans_le hlo)
  · exact writeField_of_ge (by omega)

/-- The header of a block with the fields in the order in which they are written. -/
def writeHead (m : Memory) (b : Block) (signature available type : ℕ) : Memory :=
  setHeadType (setHeadAvailable (setHeadSize (setHeadSignature m b.address signature) b.address
    b.size) b.address available) b.address type

def writeTail (m : Memory) (b : Block) (signature size : ℕ) : Memory :=
  setTailSize (setTailSignature m b.tail signature) b.tail size

section

variable {signature available type size' : ℕ}

lemma headSize_writeHead (hlt : b.size < 2 ^ 64) :
    headSize (writeHead m b signature available type) b.address = b.size := by
  rw [headSize, writeHead, setHeadType, readField_writeField_of_apart (by omega),
    setHeadAvailable, readField_writeField_of_apart (by omega), setHeadSize,
    readField_writeField_self]
  exact Nat.mod_eq_of_lt hlt

variable (hle : poolOverhead ≤ b.size)

include hle

lemma readField_writeTail (ha : a + n ≤ b.address + sizeOfPoolHeader) :
    readField (writeTail m b signature size') a n = readField m a n := by
  unfold poolOverhead sizeOfPoolHeader sizeOfPoolTail at *
  rw [writeTail, setTailSize, Block.tail, sizeOfPoolTail,
    readField_writeField_of_apart (by omega), setTailSignature,
    readField_writeField_of_apart (by omega)]

lemma headSize_writeTail : headSize (writeTail m b signature size') b.address =
    headSize m b.address :=
  readField_writeTail hle le_rfl

lemma writeTail_writeHead_of_not_contains {tailSignature : ℕ} (ha : ¬ b.Contains a) :
    writeTail (writeHead m b signature available type) b tailSignature size' a = m a := by
  unfold poolOverhead sizeOfPoolHeader sizeOfPoolTail at hle
  have htail : b.tail = b.address + b.size - 16 := rfl
  rw [writeTail, setTailSize, writeField_of_outside ha (by omega) (by omega), setTailSignature,
    writeField_of_outside ha (by omega) (by omega), writeHead, setHeadType,
    writeField_of_outside ha (by omega) (by omega), setHeadAvailable,
    writeField_of_outside ha (by omega) (by omega), setHeadSize,
    writeField_of_outside ha (by omega) (by omega), setHeadSignature,
    writeField_of_outside ha (by omega) (by omega)]

lemma filled_writeTail_writeHead (hlt : b.size < 2 ^ 64) (htype : poolType < 2 ^ 32) :
    b.Filled (writeTail (writeHead m b poolHeadSignature 0 poolType) b poolTailSignature b.size)
      poolType := by
  have hhead : ∀ {a n}, a + n ≤ b.address + 24 →
      readField (writeTail (writeHead m b poolHeadSignature 0 poolType) b poolTailSignature b.size)
        a n = readField (writeHead m b poolHeadSignature 0 poolType) a n :=
    fun h => readField_writeTail hle h
  constructor
  · rw [headSignature, hhead (by omega : b.address + 4 ≤ _), writeHead, setHeadType,
      readField_writeField_of_apart (by omega), setHeadAvailable,
      readField_writeField_of_apart (by omega), setHeadSize,
      readField_writeField_of_apart (by omega), setHeadSignature, readField_writeField_self]
    rfl
  · grind [headAvailable, writeHead, setHeadType, readField_writeField_of_apart, setHeadAvailable,
      readField_writeField_self]
  · grind [headType, writeHead, setHeadType, readField_writeField_self, Nat.mod_eq_of_lt]
  · rw [headSize_writeTail hle]
    exact headSize_writeHead hlt
  · rw [tailSignature, writeTail, setTailSize, readField_writeField_of_apart (by omega),
      setTailSignature, readField_writeField_self]
    rfl
  · simp [tailSize, writeTail, setTailSize, readField_writeField_self]
    omega

end

section

variable (hle : poolOverhead ≤ size) (hlt : hdr + size < 2 ^ 64)

include hle hlt

lemma fillBlock_eq : fillBlock m hdr size poolType =
    writeTail (writeHead m ⟨hdr, size⟩ poolHeadSignature 0 poolType) ⟨hdr, size⟩
      poolTailSignature size := by
  generalize hm : writeHead m ⟨hdr, size⟩ poolHeadSignature 0 poolType = m₁
  have hsize : headSize m₁ hdr = size := hm ▸ headSize_writeHead (by dsimp only; omega)
  have htail : headToTail m₁ hdr = (⟨hdr, size⟩ : Block).tail :=
    headToTail_eq hsize (le_trans (by decide) hle) hlt
  have hsiz' : headSize (setTailSignature m₁ (⟨hdr, size⟩ : Block).tail poolTailSignature) hdr =
      size := by
    rw [headSize, setTailSignature, readField_writeField_of_apart, ← headSize, hsize]
    unfold poolOverhead sizeOfPoolHeader sizeOfPoolTail at hle
    unfold Block.tail sizeOfPoolTail
    dsimp only
    omega
  unfold fillBlock
  dsimp only
  rw [show setHeadType (setHeadAvailable (setHeadSize (setHeadSignature m hdr poolHeadSignature)
    hdr size) hdr 0) hdr poolType = m₁ from hm, htail, hsiz', writeTail]

lemma filled_fillBlock (htype : poolType < 2 ^ 32) :
    Block.Filled (fillBlock m hdr size poolType) ⟨hdr, size⟩ poolType := by
  rw [fillBlock_eq hle hlt]
  exact filled_writeTail_writeHead hle (by dsimp only; omega) htype

lemma fillBlock_of_not_contains (ha : ¬ (⟨hdr, size⟩ : Block).Contains a) :
    fillBlock m hdr size poolType a = m a := by
  rw [fillBlock_eq hle hlt]
  exact writeTail_writeHead_of_not_contains hle ha

end

lemma splitBlock_spec (hsize : headSize s.mem hdr = 2 * size) (hle : poolOverhead ≤ size)
    (hlt : hdr + 2 * size < 2 ^ 64) :
    ∃ m, splitBlock s type poolIndex hdr =
        (hdr + size, ({ s with mem := m } : State).insertHeadList type poolIndex hdr) ∧
      ∀ a, ¬ (⟨hdr, size⟩ : Block).Contains a → m a = s.mem a := by
  have hhalf : headSize (setHeadSignature s.mem hdr 0) hdr >>> 1 = size := by
    grind [headSize, setHeadSignature, readField_writeField_of_apart, Nat.shiftRight_one,
      Nat.mul_div_cancel_left]
  generalize hm : writeHead s.mem ⟨hdr, size⟩ 0 1 0 = m₁
  have hlt' : hdr + size < 2 ^ 64 := by omega
  have hsiz₁ : headSize m₁ hdr = size :=
    hm ▸ headSize_writeHead (show size < 2 ^ 64 by omega)
  have htail : headToTail m₁ hdr = (⟨hdr, size⟩ : Block).tail :=
    headToTail_eq hsiz₁ (le_trans (by decide) hle) hlt'
  have hsiz₂ : headSize (writeTail m₁ ⟨hdr, size⟩ 0 0) hdr = size :=
    (headSize_writeTail hle).trans hsiz₁
  refine ⟨writeTail m₁ ⟨hdr, size⟩ 0 0, ?_, fun a ha => ?_⟩
  · unfold splitBlock
    dsimp only
    rw [hhalf, show setHeadType (setHeadAvailable (setHeadSize (setHeadSignature s.mem hdr 0)
      hdr size) hdr 1) hdr 0 = m₁ from hm, htail, ← writeTail, hsiz₂, u64_of_lt hlt']
  · exact hm ▸ writeTail_writeHead_of_not_contains hle ha

/-! ### Free blocks -/

/-- The blocks on the lists, with the size of their list. -/
def freeBlocksOf (lists : ℕ → List ℕ) : List Block :=
  (List.range maxPoolIndex).flatMap fun i => (lists i).map fun a => ⟨a, blockSize i⟩

/-- The free blocks of a type. -/
def freeBlocks (s : State) (type : SmmPoolType) : List Block := freeBlocksOf (s.mSmmPoolLists type)

lemma freeBlocks_congr {s' : State} (h : s'.mSmmPoolLists type = s.mSmmPoolLists type) :
    freeBlocks s' type = freeBlocks s type := by
  rw [freeBlocks, h, freeBlocks]

lemma mem_freeBlocks : b ∈ freeBlocks s type ↔
    ∃ i < maxPoolIndex, b.size = blockSize i ∧ b.address ∈ s.mSmmPoolLists type i := by
  unfold freeBlocks freeBlocksOf
  simp only [List.mem_flatMap, List.mem_range, List.mem_map]
  constructor
  · rintro ⟨i, hi, a, ha, rfl⟩
    exact ⟨i, hi, rfl, ha⟩
  · rintro ⟨i, hi, hsize, ha⟩
    exact ⟨i, hi, b.address, ha, by rw [← hsize]⟩

lemma freeBlocksOf_cons {lists lists' : ℕ → List ℕ} (hi : i < maxPoolIndex)
    (hcons : lists' i = a :: lists i) (hoth : ∀ j ≠ i, lists' j = lists j) :
    (freeBlocksOf lists').Perm (⟨a, blockSize i⟩ :: freeBlocksOf lists) := by
  have hoth' : ∀ l : List ℕ, i ∉ l →
      (l.flatMap fun i => (lists' i).map fun a => (⟨a, blockSize i⟩ : Block)) =
        l.flatMap fun i => (lists i).map fun a => ⟨a, blockSize i⟩ := by
    intro l hl
    apply List.flatMap_congr
    intro j hj
    rw [hoth j fun heq => hl (heq ▸ hj)]
  obtain ⟨l₁, l₂, hl⟩ := List.append_of_mem (List.mem_range.mpr hi)
  have hnod := @List.nodup_range maxPoolIndex
  rw [hl, List.nodup_append, List.nodup_cons] at hnod
  obtain ⟨-, ⟨h₂, -⟩, h₁⟩ := hnod
  have h₁' : i ∉ l₁ := fun hmem => h₁ i hmem i List.mem_cons_self rfl
  unfold freeBlocksOf
  rw [hl]
  simp only [List.flatMap_append, List.flatMap_cons, hoth' l₁ h₁', hoth' l₂ h₂, hcons,
    List.map_cons]
  exact List.perm_middle

@[simp] lemma mSmmPoolLists_setList : (s.setList type poolIndex l).mSmmPoolLists type' i =
    if type' = type ∧ i = poolIndex then l else s.mSmmPoolLists type' i := rfl

lemma freeBlocks_setList_of_ne (hne : type' ≠ type) :
    freeBlocks (s.setList type poolIndex l) type' = freeBlocks s type' := by
  unfold freeBlocks
  congr 1
  funext i
  rw [mSmmPoolLists_setList, if_neg fun h => hne h.1]

lemma freeBlocks_insertHeadList (hi : poolIndex < maxPoolIndex) :
    (freeBlocks (s.insertHeadList type poolIndex hdr) type).Perm
      (⟨hdr, blockSize poolIndex⟩ :: freeBlocks s type) := by
  refine freeBlocksOf_cons hi ?_ fun j hj => ?_
  · rw [State.insertHeadList, mSmmPoolLists_setList, if_pos ⟨rfl, rfl⟩]
  · rw [State.insertHeadList, mSmmPoolLists_setList, if_neg fun h => hj h.2]

lemma freeBlocks_setList_tail (hi : poolIndex < maxPoolIndex)
    (hlist : s.mSmmPoolLists type poolIndex = hdr :: l) :
    (freeBlocks s type).Perm
      (⟨hdr, blockSize poolIndex⟩ :: freeBlocks (s.setList type poolIndex l) type) := by
  refine freeBlocksOf_cons hi ?_ fun j hj => ?_
  · rw [mSmmPoolLists_setList, if_pos ⟨rfl, rfl⟩, hlist]
  · rw [mSmmPoolLists_setList, if_neg fun h => hj h.2]

end Edk2.SmmPool
