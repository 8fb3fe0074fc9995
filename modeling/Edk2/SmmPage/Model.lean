import Edk2.Pool.Model

/-!
# SMM memory pages

`PiSmmCore/Page.c` for X64, without guard pages. The free pages are kept twice: `mSmmMemoryMap`
is the list of the runs of free pages, and `gMemoryMap` the list of all memory with its types.
An entry of `gMemoryMap` lies in a slot of `mMapStack` or in a page that was taken for map
entries; a doubly linked list is the list of what it links, in order.
-/

namespace Edk2.SmmPage

open Pool (MemoryType efiRuntimeServicesCode efiRuntimeServicesData efiConventionalMemory
  assertThat)

/-- `EFI_ALLOCATE_TYPE`, as the `UINT32` that the code switches on. -/
abbrev AllocateType := ℕ

def allocateAnyPages : AllocateType := 0
def allocateMaxAddress : AllocateType := 1
def allocateAddress : AllocateType := 2

def efiAllocated : BitVec 64 := 0x10
def efiNeedsTesting : BitVec 64 := 0x20
def efiNeedsEccInitialization : BitVec 64 := 0x40

def maxMapDepth : ℕ := 6

def runtimePageAllocationGranularity : ℕ := 0x1000

/-- `sizeof (MEMORY_MAP)`. -/
def sizeOfMemoryMap : ℕ := 48

def truncateToPages (a : ℕ) : ℕ := a / efiPageSize

def efiPagesToSize (pages : ℕ) : ℕ := u64 (pages * efiPageSize)

/-- `FREE_PAGE_LIST`: a run of free pages, kept at its own start. -/
structure FreePageList where
  start : ℕ
  numberOfPages : ℕ
deriving DecidableEq, Repr

/-- Where a `MEMORY_MAP` lies. -/
inductive Place
  /-- A slot of `mMapStack`. -/
  | stack (slot : ℕ)
  | heap (address : ℕ)
deriving DecidableEq, Repr

/-- `MEMORY_MAP`; the last byte of the entry is the one at `stop`. -/
structure MemoryMap where
  start : ℕ
  stop : ℕ
  type : MemoryType
  place : Place
deriving DecidableEq, Repr

structure State where
  mSmmMemoryMap : List FreePageList
  gMemoryMap : List MemoryMap
  mMapDepth : ℕ
  mFreeMapStack : ℕ
  mFreeMemoryMapEntryList : List ℕ
deriving DecidableEq, Repr

def initialState : State := ⟨[], [], 0, 0, []⟩

/-! ### Entries of the memory map -/

/-- `InsertNewEntry` without the linking: the entry on top of the stack. -/
def insertNewEntry (s : State) (start stop : ℕ) (type : MemoryType) :
    Except Halt (MemoryMap × State) := do
  assertThat (s.mMapDepth + 1 < maxMapDepth)
  return (⟨start, stop, type, .stack s.mMapDepth⟩, { s with mMapDepth := s.mMapDepth + 1 })

/-- `RemoveOldEntry` without the unlinking: an entry on the heap can be used again. -/
def removeOldEntry (s : State) (entry : MemoryMap) : State :=
  match entry.place with
  | .stack _ => s
  | .heap address =>
    { s with mFreeMemoryMapEntryList := s.mFreeMemoryMapEntryList ++ [address] }

/-- `if (Entry->Start < Start)`: what lies below the range becomes an entry of its own. -/
def splitBelow (s : State) (start : ℕ) (before : List MemoryMap) (entry : MemoryMap) :
    Except Halt (List MemoryMap × State) :=
  if entry.start < start then do
    let (below, s) ← insertNewEntry s entry.start (sub64 start 1) entry.type
    return (below :: before, s)
  else .ok (before, s)

/-- `if (Entry->End > End)`: what lies above the range becomes an entry of its own. -/
def splitAbove (s : State) (stop : ℕ) (entry : MemoryMap) (rest : List MemoryMap) :
    Except Halt (List MemoryMap × State) :=
  if entry.stop > stop then do
    let (above, s) ← insertNewEntry s (u64 (stop + 1)) entry.stop entry.type
    return (above :: rest, s)
  else .ok (rest, s)

/-- The next entry is joined to this one if it has the same type and no gap is between them. -/
def joinNext (s : State) (entry : MemoryMap) :
    List MemoryMap → MemoryMap × List MemoryMap × State
  | [] => (entry, [], s)
  | next :: rest =>
    if entry.type = next.type ∧ u64 (entry.stop + 1) = next.start then
      ({ entry with stop := next.stop }, rest, removeOldEntry s next)
    else (entry, next :: rest, s)

/-- This entry is joined to the previous one. -/
def joinPrevious (s : State) (entry : MemoryMap) (rest : List MemoryMap) :
    List MemoryMap → List MemoryMap × State
  | [] => (entry :: rest, s)
  | previous :: before =>
    if previous.type = entry.type ∧ u64 (previous.stop + 1) = entry.start then
      (before.reverse ++ { previous with stop := entry.stop } :: rest, removeOldEntry s entry)
    else ((previous :: before).reverse ++ entry :: rest, s)

/-- The range lies in an entry of another type, which is split and joined to its neighbours. -/
def convertEntry (s : State) (type : MemoryType) (start stop : ℕ) (before : List MemoryMap)
    (entry : MemoryMap) (rest : List MemoryMap) : Except Halt State := do
  let (before, s) ← splitBelow s start before entry
  let (rest, s) ← splitAbove s stop entry rest
  let (entry, rest, s) := joinNext s { entry with
    start := start, stop := stop, type := type } rest
  let (map, s) := joinPrevious s entry rest before
  return { s with gMemoryMap := map }

/-- The loop of `ConvertSmmMemoryMapEntry` and what follows it; `before` are the entries that the
loop has passed, the last one first. -/
def excludeRegion (s : State) (type : MemoryType) (start stop : ℕ) (before : List MemoryMap) :
    List MemoryMap → Except Halt State
  | [] =>
    match before with
    | [] => do
      let (new, s) ← insertNewEntry s start stop type
      return { s with gMemoryMap := [new] }
    | last :: before' =>
      if u64 (last.stop + 1) = start ∧ last.type = type then
        .ok { s with gMemoryMap := ({ last with stop := stop } :: before').reverse }
      else do
        let (new, s) ← insertNewEntry s start stop type
        return { s with gMemoryMap := (new :: before).reverse }
  | entry :: rest =>
    if entry.start > stop then
      if entry.start = u64 (stop + 1) ∧ entry.type = type then
        .ok { s with gMemoryMap := before.reverse ++ { entry with start := start } :: rest }
      else do
        let (new, s) ← insertNewEntry s start stop type
        return { s with gMemoryMap := before.reverse ++ new :: entry :: rest }
    else if entry.start ≤ start ∧ entry.stop ≥ stop then
      if entry.type ≠ type then convertEntry s type start stop before entry rest else .ok s
    else excludeRegion s type start stop (entry :: before) rest

/-- `Memory + EFI_PAGES_TO_SIZE (NumberOfPages) - 1`. -/
def lastAddress (memory numberOfPages : ℕ) : ℕ :=
  sub64 (u64 (memory + efiPagesToSize numberOfPages)) 1

def convertSmmMemoryMapEntry (s : State) (type : MemoryType) (memory numberOfPages : ℕ) :
    Except Halt State :=
  excludeRegion s type memory (lastAddress memory numberOfPages) [] s.gMemoryMap

/-! ### Taking free pages -/

/-- `InternalAllocPagesOnOneNode`: what is left of the node, and the address of the pages. -/
def internalAllocPagesOnOneNode (pages : FreePageList) (numberOfPages maxAddress : ℕ) :
    List FreePageList × ℕ :=
  let top := min (truncateToPages (sub64 (u64 (maxAddress + 1)) pages.start)) pages.numberOfPages
  let bottom := sub64 top numberOfPages
  ((if bottom > 0 then [⟨pages.start, bottom⟩] else []) ++
      (if top < pages.numberOfPages then
        [⟨u64 (pages.start + efiPagesToSize top), sub64 pages.numberOfPages top⟩]
      else []),
    u64 (pages.start + efiPagesToSize bottom))

/-- The loop of `InternalAllocMaxAddress`, from the last node to the first; `after` are the nodes
that it has passed. -/
def allocMaxAddressLoop (numberOfPages maxAddress : ℕ) :
    List FreePageList → List FreePageList → List FreePageList × ℕ
  | [], after => (after, 2 ^ 64 - 1)
  | pages :: before, after =>
    if pages.numberOfPages ≥ numberOfPages ∧
        sub64 (u64 (pages.start + efiPagesToSize numberOfPages)) 1 ≤ maxAddress then
      let (nodes, address) := internalAllocPagesOnOneNode pages numberOfPages maxAddress
      (before.reverse ++ nodes ++ after, address)
    else allocMaxAddressLoop numberOfPages maxAddress before (pages :: after)

def internalAllocMaxAddress (freePageList : List FreePageList) (numberOfPages maxAddress : ℕ) :
    List FreePageList × ℕ :=
  allocMaxAddressLoop numberOfPages maxAddress freePageList.reverse []

/-- The loop of `InternalAllocAddress`. -/
def allocAddressLoop (numberOfPages address endAddress : ℕ) :
    List FreePageList → List FreePageList → List FreePageList × ℕ
  | [], after => (after, 2 ^ 64 - 1 - address)
  | pages :: before, after =>
    if pages.start ≤ address then
      if u64 (pages.start + efiPagesToSize pages.numberOfPages) < endAddress then
        (before.reverse ++ pages :: after, 2 ^ 64 - 1 - address)
      else
        let (nodes, memory) := internalAllocPagesOnOneNode pages numberOfPages endAddress
        (before.reverse ++ nodes ++ after, memory)
    else allocAddressLoop numberOfPages address endAddress before (pages :: after)

def internalAllocAddress (freePageList : List FreePageList) (numberOfPages address : ℕ) :
    List FreePageList × ℕ :=
  if address % efiPageSize ≠ 0 then (freePageList, 2 ^ 64 - 1 - address)
  else allocAddressLoop numberOfPages address (u64 (address + efiPagesToSize numberOfPages))
    freePageList.reverse []

/-- The `switch` of `SmmInternalAllocatePagesEx`: what is left of the free pages and the value that
`*Memory` gets. -/
def searchPages (freePageList : List FreePageList) (type : AllocateType)
    (numberOfPages memory : ℕ) : EfiStatus × List FreePageList × ℕ :=
  if type = allocateAnyPages ∨ type = allocateMaxAddress then
    let requestedAddress := if type = allocateAnyPages then 2 ^ 64 - 1 else memory
    let (nodes, address) := internalAllocMaxAddress freePageList numberOfPages requestedAddress
    (if address = 2 ^ 64 - 1 then .outOfResources else .success, nodes, address)
  else if type = allocateAddress then
    let (nodes, address) := internalAllocAddress freePageList numberOfPages memory
    (if address ≠ memory then .notFound else .success, nodes, address)
  else (.invalidParameter, freePageList, memory)

/-- `SmmInternalAllocatePagesEx` up to `CoreFreeMemoryMapStack`; the answer is the value that
`*Memory` gets. -/
def takePages (s : State) (type : AllocateType) (memoryType : MemoryType)
    (numberOfPages memory : ℕ) : Except Halt (EfiStatus × ℕ × State) :=
  if memoryType ≠ efiRuntimeServicesCode ∧ memoryType ≠ efiRuntimeServicesData then
    .ok (.invalidParameter, memory, s)
  else if numberOfPages > truncateToPages (2 ^ 64 - 1) + 1 then
    .ok (.outOfResources, memory, s)
  else
    let (status, nodes, address) := searchPages s.mSmmMemoryMap type numberOfPages memory
    let s := { s with mSmmMemoryMap := nodes }
    if status.isError then .ok (status, address, s)
    else do
      let s ← convertSmmMemoryMapEntry s memoryType address numberOfPages
      return (.success, address, s)

/-! ### Moving the stack to the heap -/

/-- The map entries that fit into a new page. -/
def newMemoryMapEntries (memory : ℕ) : List ℕ :=
  (List.range (runtimePageAllocationGranularity / sizeOfMemoryMap)).map fun index =>
    memory + index * sizeOfMemoryMap

/-- `if (IsListEmpty (&mFreeMemoryMapEntryList))`: a new page is filled with entries. What `Mem`
holds before the call does not matter. -/
def refillMemoryMapEntries (s : State) : Except Halt State :=
  match s.mFreeMemoryMapEntryList with
  | [] => do
    let (status, memory, s) ← takePages s allocateAnyPages efiRuntimeServicesData
      (runtimePageAllocationGranularity / efiPageSize) 0
    assertThat (!status.isError)
    return { s with mFreeMemoryMapEntryList := newMemoryMapEntries memory }
  | _ :: _ => .ok s

def allocateMemoryMapEntry (s : State) : Except Halt (ℕ × State) := do
  let s ← refillMemoryMapEntries s
  match s.mFreeMemoryMapEntryList with
  | [] => .error .assert
  | entry :: rest => return (entry, { s with mFreeMemoryMapEntryList := rest })

/-- An entry that is still linked moves from its slot to the heap. -/
def moveToHeap (slot address : ℕ) (entry : MemoryMap) : MemoryMap :=
  if entry.place = .stack slot then { entry with place := .heap address } else entry

/-- `while (mMapDepth != 0)`. -/
def freeMemoryMapStackLoop : ℕ → State → Except Halt State
  | 0, s => if s.mMapDepth ≠ 0 then .error .loop else .ok s
  | fuel + 1, s =>
    if s.mMapDepth ≠ 0 then do
      let (address, s) ← allocateMemoryMapEntry s
      freeMemoryMapStackLoop fuel { s with
        mMapDepth := s.mMapDepth - 1
        gMemoryMap := s.gMemoryMap.map (moveToHeap (s.mMapDepth - 1) address) }
    else .ok s

def coreFreeMemoryMapStack (s : State) : Except Halt State := do
  assertThat (s.mFreeMapStack = 0)
  let s ← freeMemoryMapStackLoop (2 * maxMapDepth) { s with mFreeMapStack := s.mFreeMapStack + 1 }
  return { s with mFreeMapStack := s.mFreeMapStack - 1 }

/-- `SmmInternalAllocatePagesEx`, not for a new region; the same as `SmmInternalAllocatePages`
and, but for the profile, `SmmAllocatePages`. -/
def smmInternalAllocatePages (s : State) (type : AllocateType) (memoryType : MemoryType)
    (numberOfPages memory : ℕ) : Except Halt (EfiStatus × ℕ × State) := do
  let (status, memory, s) ← takePages s type memoryType numberOfPages memory
  if status.isError then return (status, memory, s)
  let s ← coreFreeMemoryMapStack s
  return (.success, memory, s)

def smmAllocatePages (s : State) (type : AllocateType) (memoryType : MemoryType)
    (numberOfPages memory : ℕ) : Except Halt (EfiStatus × ℕ × State) :=
  smmInternalAllocatePages s type memoryType numberOfPages memory

/-! ### Giving pages back -/

/-- `InternalMergeNodes`: the node after the merge or the next one, behind what stays in front
of it. -/
def internalMergeNodes (first next : FreePageList) :
    Except Halt (List FreePageList × FreePageList) := do
  assertThat (truncateToPages (sub64 next.start first.start) ≥ first.numberOfPages)
  return if truncateToPages (sub64 next.start first.start) = first.numberOfPages then
    ([], ⟨first.start, u64 (first.numberOfPages + next.numberOfPages)⟩)
  else ([first], next)

/-- The new node is merged with the one before it; `before` are the nodes in front of it, the last
one first. -/
def mergeBefore (pages : FreePageList) :
    List FreePageList → Except Halt (List FreePageList × FreePageList)
  | [] => .ok ([], pages)
  | previous :: before => do
    let (front, pages) ← internalMergeNodes previous pages
    return (before.reverse ++ front, pages)

/-- The new node is merged with the one after it. -/
def mergeAfter (pages : FreePageList) : List FreePageList → Except Halt (List FreePageList)
  | [] => .ok [pages]
  | next :: after => do
    let (front, pages) ← internalMergeNodes pages next
    return front ++ pages :: after

/-- `SmmInternalFreePagesEx` up to `CoreFreeMemoryMapStack`. -/
def givePages (s : State) (memory numberOfPages : ℕ) : Except Halt (EfiStatus × State) :=
  if memory % efiPageSize ≠ 0 ∨ memory = 0 ∨ numberOfPages = 0 then .ok (.invalidParameter, s)
  else
    let before := (s.mSmmMemoryMap.takeWhile fun pages => ¬ memory < pages.start).reverse
    let after := s.mSmmMemoryMap.dropWhile fun pages => ¬ memory < pages.start
    if after.head?.any fun pages =>
        u64 (memory + efiPagesToSize numberOfPages) > pages.start then
      .ok (.invalidParameter, s)
    else if before.head?.any fun pages =>
        u64 (pages.start + efiPagesToSize pages.numberOfPages) > memory then
      .ok (.invalidParameter, s)
    else do
      let (front, pages) ← mergeBefore ⟨memory, numberOfPages⟩ before
      let nodes ← mergeAfter pages after
      let s ← convertSmmMemoryMapEntry { s with mSmmMemoryMap := front ++ nodes }
        efiConventionalMemory memory numberOfPages
      return (.success, s)

/-- `SmmInternalFreePagesEx`, not for a new region. -/
def smmInternalFreePages (s : State) (memory numberOfPages : ℕ) :
    Except Halt (EfiStatus × State) := do
  let (status, s) ← givePages s memory numberOfPages
  if status.isError then return (status, s)
  let s ← coreFreeMemoryMapStack s
  return (.success, s)

def inMemMap (s : State) (memory numberOfPages : ℕ) : Bool :=
  s.gMemoryMap.any fun entry =>
    entry.start ≤ memory ∧ entry.stop ≥ lastAddress memory numberOfPages

def smmFreePages (s : State) (memory numberOfPages : ℕ) : Except Halt (EfiStatus × State) :=
  if ¬ inMemMap s memory numberOfPages then .ok (.notFound, s)
  else smmInternalFreePages s memory numberOfPages

/-! ### New regions -/

/-- The type that a region of this state gets. -/
def regionType (attributes : BitVec 64) : MemoryType :=
  if attributes &&& (efiAllocated ||| efiNeedsTesting ||| efiNeedsEccInitialization) ≠ 0 then
    efiRuntimeServicesData
  else efiConventionalMemory

def alignedMemBase (memBase : ℕ) : ℕ := pageAlignAddress memBase

/-- The pages of a region. -/
def regionPages (memBase memLength : ℕ) : ℕ :=
  truncateToPages (sub64 memLength (sub64 (alignedMemBase memBase) memBase))

def smmAddMemoryRegion (s : State) (memBase memLength : ℕ) (attributes : BitVec 64) :
    Except Halt State := do
  let s ←
    if regionType attributes = efiConventionalMemory then do
      let (_, s) ← givePages s (alignedMemBase memBase) (regionPages memBase memLength)
      pure s
    else
      convertSmmMemoryMapEntry s efiRuntimeServicesData (alignedMemBase memBase)
        (regionPages memBase memLength)
  coreFreeMemoryMapStack s

end Edk2.SmmPage
