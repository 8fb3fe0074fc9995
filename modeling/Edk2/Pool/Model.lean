import Edk2.Base

/-!
# Memory pools

`Core/Dxe/Mem/Pool.c` for X64, with the heap guard off. The memory is seen through the structures
that the pool code keeps in it: what lies at an address is a `POOL_FREE`, a `POOL_HEAD` or
anything else, told apart by the signature they start with, and a `POOL_TAIL` may lie there. A
doubly linked list of free blocks is the list of their addresses. The page allocator is outside;
`runs` are the pages it has handed out to the pool.
-/

namespace Edk2.Pool

/-- `EFI_MEMORY_TYPE`, as the `UINT32` that the code compares. -/
abbrev MemoryType := ℕ

def efiBootServicesData : MemoryType := 4
def efiRuntimeServicesCode : MemoryType := 5
def efiRuntimeServicesData : MemoryType := 6
def efiConventionalMemory : MemoryType := 7
def efiACPIReclaimMemory : MemoryType := 9
def efiACPIMemoryNVS : MemoryType := 10
def efiPersistentMemory : MemoryType := 14
def efiMaxMemoryType : MemoryType := 15
def memoryTypeOemReservedMin : MemoryType := 0x70000000

/-- `SIZE_OF_POOL_HEAD`, `sizeof (POOL_TAIL)`, `POOL_OVERHEAD` and `sizeof (POOL)`. -/
def sizeOfPoolHead : ℕ := 24
def sizeOfPoolTail : ℕ := 16
def poolOverhead : ℕ := sizeOfPoolHead + sizeOfPoolTail
def sizeOfPool : ℕ := 232

def maxPoolSize : ℕ := 2 ^ 64 - 1 - poolOverhead

def mPoolSizeTable : List ℕ :=
  [128, 256, 384, 640, 1024, 1664, 2688, 4352, 7040, 11392, 18432, 29824]

def maxPoolList : ℕ := mPoolSizeTable.length

/-- `SIZE_TO_LIST`. -/
def getPoolIndexFromSize (size : ℕ) : ℕ := mPoolSizeTable.findIdx fun n => n ≥ size

def listToSize (index : ℕ) : ℕ := mPoolSizeTable.getD index 0

def alignVariable (value : ℕ) : ℕ := u64 (value + (8 - value % 8) % 8)

def efiSizeToPages (size : ℕ) : ℕ :=
  size / efiPageSize + if size % efiPageSize ≠ 0 then 1 else 0

/-- The granularities of the processor: the one for runtime memory differs on AArch64. -/
structure Config where
  runtimePageAllocationGranularity : ℕ
  valid : runtimePageAllocationGranularity = 0x1000 ∨ runtimePageAllocationGranularity = 0x10000

def Config.granularity (cfg : Config) (poolType : MemoryType) : ℕ :=
  if poolType = efiACPIReclaimMemory ∨ poolType = efiACPIMemoryNVS ∨
      poolType = efiRuntimeServicesCode ∨ poolType = efiRuntimeServicesData then
    cfg.runtimePageAllocationGranularity
  else 0x1000

/-- `SIZE_TO_LIST (Granularity)`. -/
def Config.limit (cfg : Config) (poolType : MemoryType) : ℕ :=
  getPoolIndexFromSize (cfg.granularity poolType)

/-- `NoPages` of an allocation that is served by pages. -/
def noPages (size granularity : ℕ) : ℕ :=
  let pages := efiSizeToPages size + efiSizeToPages granularity - 1
  pages - pages % efiSizeToPages granularity

/-- What the signature at an address says that lies there. -/
inductive Header
  /-- `POOL_FREE`. -/
  | free (index : ℕ)
  /-- `POOL_HEAD`. -/
  | head (type : MemoryType) (size : ℕ)
  | other
deriving DecidableEq, Repr

/-- `POOL`. -/
structure PoolRecord where
  used : ℕ
  freeList : ℕ → List ℕ

/-- Pages that the page allocator has handed out. -/
structure PageRun where
  base : ℕ
  pages : ℕ
  type : MemoryType
deriving DecidableEq, Repr

structure State where
  header : ℕ → Header
  /-- The size in the `POOL_TAIL` at an address. -/
  tail : ℕ → Option ℕ
  /-- The `POOL` of a memory type; those of OEM and OS types exist if they are listed. -/
  mPoolHead : MemoryType → PoolRecord
  mPoolHeadList : List (MemoryType × ℕ)
  runs : List PageRun

/-- What `CoreAllocatePoolPages` answers. -/
abbrev PageAllocator := State → MemoryType → ℕ → ℕ → Option ℕ

def emptyPool : PoolRecord := ⟨0, fun _ => []⟩

/-- `CoreInitializePool`; whatever lies in memory stays there. -/
def coreInitializePool (header : ℕ → Header) (tail : ℕ → Option ℕ) : State :=
  ⟨header, tail, fun _ => emptyPool, [], []⟩

def assertThat (b : Bool) : Except Halt Unit := if b then .ok () else .error .assert

/-- The address of the tail that belongs to a head. -/
def headToTail (head size : ℕ) : ℕ := u64 (head + size + 2 ^ 64 - sizeOfPoolTail)

/-! ### Lists and pages -/

/-- Write a `POOL_FREE` and insert it into its list. -/
def insertFree (s : State) (type : MemoryType) (index : ℕ) (addr : ℕ) : State :=
  let pool := s.mPoolHead type
  { s with
    header := Function.update s.header addr (.free index)
    mPoolHead := Function.update s.mPoolHead type
      { pool with freeList := Function.update pool.freeList index (addr :: pool.freeList index) } }

/-- `RemoveEntryList`: the entry is unlinked from the list it is in. -/
def removeEntryList (s : State) (addr : ℕ) : State :=
  { s with
    mPoolHead := fun type =>
      { s.mPoolHead type with
        freeList := fun index => ((s.mPoolHead type).freeList index).filter (· ≠ addr) } }

/-- `CR (FreeList.ForwardLink, POOL_FREE, Link, POOL_FREE_SIGNATURE)` and `RemoveEntryList`. -/
def unlinkFirst (s : State) : List ℕ → Except Halt (ℕ × State)
  | [] => .error .fault
  | addr :: _ =>
    match s.header addr with
    | .free _ => .ok (addr, removeEntryList s addr)
    | _ => .error .assert

def coreAllocatePoolPagesI (pages : PageAllocator) (s : State) (poolType : MemoryType)
    (noPages granularity : ℕ) : Option ℕ × State :=
  match pages s poolType noPages granularity with
  | none => (none, s)
  | some base => (some base, { s with runs := ⟨base, noPages, poolType⟩ :: s.runs })

/-- Pages that were not handed out cannot be given back. -/
def coreFreePoolPagesI (s : State) (poolType : MemoryType) (memory : ℕ) (noPages : ℕ) :
    Except Halt State :=
  if ⟨memory, noPages, poolType⟩ ∈ s.runs then
    .ok { s with runs := s.runs.erase ⟨memory, noPages, poolType⟩ }
  else .error .fault

/-! ### Allocation -/

/-- `while (Offset + FSize <= MaxOffset)`: as many blocks of one size as fit. -/
def carveBin (type : MemoryType) (newPage index maxOffset : ℕ) :
    ℕ → State → ℕ → Except Halt (State × ℕ)
  | 0, s, offset =>
    if offset + listToSize index ≤ maxOffset then .error .loop else .ok (s, offset)
  | fuel + 1, s, offset =>
    if offset + listToSize index ≤ maxOffset then
      carveBin type newPage index maxOffset fuel (insertFree s type index (newPage + offset))
        (offset + listToSize index)
    else .ok (s, offset)

/-- `while (Offset < MaxOffset)`: carve up the remaining space, largest blocks first. Below index
0 the index wraps around, which the assertion in the loop catches. -/
def carve (type : MemoryType) (newPage maxOffset : ℕ) : ℕ → State → ℕ → Except Halt (State × ℕ)
  | 0, s, offset =>
    if offset < maxOffset then do
      let (s, offset) ← carveBin type newPage 0 maxOffset maxOffset s offset
      assertThat (maxOffset ≤ offset)
      return (s, offset)
    else .ok (s, offset)
  | index + 1, s, offset =>
    if offset < maxOffset then do
      assertThat (index + 1 < maxPoolList)
      let (s, offset) ← carveBin type newPage (index + 1) maxOffset maxOffset s offset
      carve type newPage maxOffset index s offset
    else .ok (s, offset)

/-- `while (++Index < SIZE_TO_LIST (Granularity))`: the first bin from `index` on that is not
empty, or the limit. -/
def nextBin (freeList : ℕ → List ℕ) : ℕ → ℕ → ℕ
  | 0, index => index
  | n + 1, index => if freeList index ≠ [] then index else nextBin freeList n (index + 1)

/-- Carve up the space behind the first `offset` bytes and serve the request from these. -/
def carveRest (type : MemoryType) (newPage maxOffset index offset : ℕ) (s : State) :
    Except Halt (Option ℕ × State) := do
  let (s, offset) ← carve type newPage maxOffset index s offset
  assertThat (offset = maxOffset)
  return (some newPage, s)

/-- The head of the block or of the pages that serve a request. -/
def allocateBlock (cfg : Config) (pages : PageAllocator) (s : State) (poolType : MemoryType)
    (size : ℕ) : Except Halt (Option ℕ × State) :=
  let granularity := cfg.granularity poolType
  let limit := cfg.limit poolType
  let index := getPoolIndexFromSize size
  let freeList := (s.mPoolHead poolType).freeList
  if index ≥ limit then
    .ok (coreAllocatePoolPagesI pages s poolType (noPages size granularity) granularity)
  else if freeList index = [] then
    let bin := nextBin freeList (limit - (index + 1)) (index + 1)
    if bin < limit then do
      let (free, s) ← unlinkFirst s (freeList bin)
      carveRest poolType free (listToSize bin) (bin - 1) (listToSize index) s
    else
      match coreAllocatePoolPagesI pages s poolType (efiSizeToPages granularity) granularity with
      | (none, s) => .ok (none, s)
      | (some newPage, s) =>
        carveRest poolType newPage granularity (bin - 1) (listToSize index) s
  else do
    let (free, s) ← unlinkFirst s (freeList index)
    return (some free, s)

/-- Account the allocation and fill in head and tail. -/
def fillHead (s : State) (poolType : MemoryType) (head size : ℕ) : State :=
  let pool := s.mPoolHead poolType
  { s with
    header := Function.update s.header head (.head poolType size)
    tail := Function.update s.tail (headToTail head size) (some size)
    mPoolHead := Function.update s.mPoolHead poolType { pool with used := u64 (pool.used + size) } }

/-- The size of a request with head and tail. -/
def adjustedSize (size : ℕ) : ℕ := u64 (alignVariable size + poolOverhead)

/-- `CoreAllocatePoolI` once the pool is known; the result is `Buffer`. -/
def allocateFromPool (cfg : Config) (pages : PageAllocator) (s : State) (poolType : MemoryType)
    (size : ℕ) : Except Halt (Option ℕ × State) := do
  let (head, s) ← allocateBlock cfg pages s poolType (adjustedSize size)
  match head with
  | none => return (none, s)
  | some head =>
    return (some (head + sizeOfPoolHead), fillHead s poolType head (adjustedSize size))

/-- `LookupPoolHead`: whether there is a pool, after the attempt to create it. -/
def lookupPoolHead (cfg : Config) (pages : PageAllocator) (s : State) (memoryType : MemoryType) :
    Except Halt (Bool × State) :=
  if memoryType < efiMaxMemoryType then .ok (true, s)
  else if memoryType ≥ memoryTypeOemReservedMin then
    if memoryType ∈ s.mPoolHeadList.map Prod.fst then .ok (true, s)
    else do
      let (pool, s) ← allocateFromPool cfg pages s efiBootServicesData sizeOfPool
      match pool with
      | none => return (false, s)
      | some pool =>
        return (true, { s with mPoolHead := Function.update s.mPoolHead memoryType emptyPool
                               mPoolHeadList := (memoryType, pool) :: s.mPoolHeadList })
  else .ok (false, s)

def coreAllocatePoolI (cfg : Config) (pages : PageAllocator) (s : State) (poolType : MemoryType)
    (size : ℕ) : Except Halt (Option ℕ × State) := do
  let (found, s) ← lookupPoolHead cfg pages s poolType
  if found then allocateFromPool cfg pages s poolType size else return (none, s)

/-- The types that no pool may have. -/
def InvalidPoolType (poolType : MemoryType) : Prop :=
  (poolType ≥ efiMaxMemoryType ∧ poolType < memoryTypeOemReservedMin) ∨
    poolType = efiConventionalMemory ∨ poolType = efiPersistentMemory

instance (poolType : MemoryType) : Decidable (InvalidPoolType poolType) :=
  inferInstanceAs (Decidable (_ ∨ _))

/-- `CoreInternalAllocatePool` with a `Buffer` to fill; `lock` is whether the lock is free. -/
def coreInternalAllocatePool (cfg : Config) (pages : PageAllocator) (lock : Bool) (s : State)
    (poolType : MemoryType) (size : ℕ) : Except Halt (EfiStatus × Option ℕ × State) :=
  if InvalidPoolType poolType then .ok (.invalidParameter, none, s)
  else if size > maxPoolSize then .ok (.outOfResources, none, s)
  else if ¬ lock then .ok (.outOfResources, none, s)
  else do
    let (buffer, s) ← coreAllocatePoolI cfg pages s poolType size
    return (if buffer ≠ none then .success else .outOfResources, buffer, s)

/-! ### Freeing -/

/-- Whether all blocks from an offset to the end of a granule are free. The code asks this of the
first block on its own before it starts the loop, which asks it again. -/
def allFree (s : State) (newPage granularity : ℕ) : ℕ → ℕ → Except Halt Bool
  | 0, offset => if offset < granularity then .error .loop else .ok true
  | fuel + 1, offset =>
    if offset < granularity then
      match s.header (newPage + offset) with
      | .free index =>
        if index < maxPoolList then allFree s newPage granularity fuel (offset + listToSize index)
        else .error .fault
      | _ => .ok false
    else .ok true

/-- Remove the blocks of a granule from the free lists. -/
def removeGranule (newPage granularity : ℕ) : ℕ → State → ℕ → Except Halt State
  | 0, s, offset => if offset < granularity then .error .loop else .ok s
  | fuel + 1, s, offset =>
    if offset < granularity then
      match s.header (newPage + offset) with
      | .free index =>
        removeGranule newPage granularity fuel (removeEntryList s (newPage + offset))
          (offset + listToSize index)
      | _ => .error .fault
    else .ok s

/-- Give the block or the pages of a head back. -/
def freeBlock (cfg : Config) (s : State) (type : MemoryType) (head size : ℕ) :
    Except Halt State :=
  let granularity := cfg.granularity type
  let index := getPoolIndexFromSize size
  if index ≥ cfg.limit type then
    coreFreePoolPagesI s type head (noPages size granularity)
  else
    let s := insertFree s type index head
    let newPage := head - head % granularity
    do
      if ← allFree s newPage granularity granularity 0 then
        let s ← removeGranule newPage granularity granularity s 0
        coreFreePoolPagesI s type newPage (efiSizeToPages granularity)
      else return s

/-- `Pool->Used -= Size`. -/
def unaccount (s : State) (type : MemoryType) (size : ℕ) : State :=
  let pool := s.mPoolHead type
  { s with mPoolHead := Function.update s.mPoolHead type
                          { pool with used := u64 (pool.used + 2 ^ 64 - size) } }

/-- `CoreFreePoolI` up to its recursive call: if this was the last request of an OEM or OS type,
its `POOL` is taken off the list and is to be freed next. -/
def freePoolOnce (cfg : Config) (pages : PageAllocator) (s : State) (buffer : ℕ) :
    Except Halt (EfiStatus × Option ℕ × State) :=
  let head := buffer - sizeOfPoolHead
  match s.header head with
  | .head type size => do
    assertThat (s.tail (headToTail head size) = some size)
    let (found, s) ← lookupPoolHead cfg pages s type
    if ¬ found then return (.invalidParameter, none, s)
    else
      let s ← freeBlock cfg (unaccount s type size) type head size
      if type ≥ memoryTypeOemReservedMin ∧ (s.mPoolHead type).used = 0 then
        match s.mPoolHeadList.find? (·.1 = type) with
        | some (_, pool) =>
          return (.success, some pool,
            { s with mPoolHeadList := s.mPoolHeadList.filter (·.1 ≠ type) })
        | none => .error .fault
      else return (.success, none, s)
  | _ => .error .assert

/-- `CoreFreePoolI`; each round takes a `POOL` off the list, whose length bounds the recursion. -/
def freePoolLoop (cfg : Config) (pages : PageAllocator) :
    ℕ → State → ℕ → Except Halt (EfiStatus × State)
  | 0, _, _ => .error .loop
  | fuel + 1, s, buffer => do
    let (status, next, s) ← freePoolOnce cfg pages s buffer
    match next with
    | none => return (status, s)
    | some pool => do
      let (_, s) ← freePoolLoop cfg pages fuel s pool
      return (status, s)

def coreFreePoolI (cfg : Config) (pages : PageAllocator) (s : State) (buffer : ℕ) :
    Except Halt (EfiStatus × State) :=
  freePoolLoop cfg pages (s.mPoolHeadList.length + 1) s buffer

/-- `CoreInternalFreePool`; `0` is `NULL`. -/
def coreInternalFreePool (cfg : Config) (pages : PageAllocator) (s : State) (buffer : ℕ) :
    Except Halt (EfiStatus × State) :=
  if buffer = 0 then .ok (.invalidParameter, s) else coreFreePoolI cfg pages s buffer

end Edk2.Pool
