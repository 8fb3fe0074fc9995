import Edk2.Gcd.Space
import Edk2.Pool.Model

/-!
# The page allocator of the DXE core

`Core/Dxe/Mem/Page.c` with the heap guard and the fixed address feature off. The list
`gMemoryMap` is a list of descriptors; a descriptor lives in a page or in a slot of the temporary
stack `mMapStack`, and a slot that is not linked in is not in the list. The free descriptors of
`mFreeMemoryMapEntryList` are counted.

`CoreFreeMemoryMapStack` allocates descriptors, which converts pages and may promote memory, and
both call `CoreFreeMemoryMapStack` again. As `mFreeMapStack` is set by then, the inner call returns
at once, so the recursion is unrolled once: the functions in between take the inner call as the
parameter `drain`.
-/

namespace Edk2.Page

open Edk2.Gcd
open Edk2.Pool (MemoryType efiBootServicesData efiRuntimeServicesCode efiRuntimeServicesData
  efiConventionalMemory efiACPIReclaimMemory efiACPIMemoryNVS efiPersistentMemory efiMaxMemoryType
  memoryTypeOemReservedMin efiSizeToPages)

def efiReservedMemoryType : MemoryType := 0
def efiMemoryMappedIO : MemoryType := 11
def efiMemoryMappedIOPortSpace : MemoryType := 12
def efiPalCode : MemoryType := 13

abbrev maxMapDepth : ℕ := 6

/-- `DEFAULT_PAGE_ALLOCATION_GRANULARITY / sizeof (MEMORY_MAP)`. -/
abbrev entriesPerPage : ℕ := 64

abbrev efiPageMask : ℕ := 0xFFF

/-- The constants of the processor and the handle of the DXE core. -/
structure Config extends Pool.Config where
  maxAllocAddress : ℕ
  gDxeCoreImageHandle : Handle
  max_valid : maxAllocAddress = 0xFFFFFFFFFFFFFFFF ∨ maxAllocAddress = 0xFFFFFFFFFFFF

/-- Why a call does not come to its end. -/
inductive Failure
  /-- An `ASSERT` failed. -/
  | assert
  /-- `ASSERT (mMapDepth < MAX_MAP_DEPTH)` failed. -/
  | overflow
  /-- The inner call of `CoreFreeMemoryMapStack` did not find `mFreeMapStack` set. -/
  | nested
  /-- A loop was cut off. -/
  | loop
deriving DecidableEq, Repr

structure MemoryMap where
  /-- The slot of `mMapStack` it lives in, or `none` if it is `FromPages`. -/
  slot : Option ℕ
  type : MemoryType
  start : ℕ
  /-- `End`, the last address. -/
  stop : ℕ
  /-- `Attribute`. -/
  attr : BitVec 64
deriving DecidableEq, Repr

def MemoryMap.fromPages (entry : MemoryMap) : Bool := entry.slot.isNone

/-- `EFI_MEMORY_TYPE_STATISTICS`. -/
structure TypeStatistics where
  baseAddress : ℕ
  maximumAddress : ℕ
  currentNumberOfPages : ℕ
  numberOfPages : ℕ
  informationIndex : ℕ
  special : Bool
  runtime : Bool
deriving DecidableEq, Repr

/-- `EFI_MEMORY_TYPE_INFORMATION`. -/
structure TypeInformation where
  type : MemoryType
  numberOfPages : ℕ
deriving DecidableEq, Repr

/-- The map that the release of the memory lock exposes, and the ranges added by then. -/
structure Release where
  map : List MemoryMap
  added : List (ℕ × ℕ)
deriving DecidableEq, Repr

/-- What `PromoteMemoryResource` finds when it is called while draining is suspended. -/
structure Promotion where
  mMapDepth : ℕ
  untested : ℕ
deriving DecidableEq, Repr

/-- The variables of `Page.c` and the GCD memory map. The fields from `added` on observe a run,
nothing reads them. -/
structure State where
  gMemoryMap : List MemoryMap
  mMapDepth : ℕ
  mFreeMapStack : ℕ
  /-- The length of `mFreeMemoryMapEntryList`. -/
  freeEntries : ℕ
  mMemoryMapKey : ℕ
  mMemoryTypeInformationInitialized : Bool
  mMemoryTypeStatistics : MemoryType → TypeStatistics
  mDefaultMaximumAddress : ℕ
  mDefaultBaseAddress : ℕ
  gMemoryTypeInformation : List TypeInformation
  mGcdMemorySpaceMap : List GcdMapEntry
  gMemoryLock : Bool
  mGcdMemorySpaceLock : Bool
  /-- The ranges given to the map by `CoreAddMemoryDescriptor` and by promotion. -/
  added : List (ℕ × ℕ)
  released : List Release
  promotions : List Promotion
  /-- The number of map updates. -/
  updates : ℕ

abbrev PageM := EStateM Failure State

def isSpecial (type : MemoryType) : Bool :=
  type = efiReservedMemoryType ∨ type = efiRuntimeServicesCode ∨ type = efiRuntimeServicesData ∨
    type = efiACPIReclaimMemory ∨ type = efiACPIMemoryNVS ∨ type = efiPalCode

def isRuntime (type : MemoryType) : Bool :=
  type = efiRuntimeServicesCode ∨ type = efiRuntimeServicesData ∨ type = efiPalCode

/-- The values that the variables are defined with; the type information may come from a HOB. -/
def initialState (cfg : Config) (information : List TypeInformation)
    (gcdMap : List GcdMapEntry) : State where
  gMemoryMap := []
  mMapDepth := 0
  mFreeMapStack := 0
  freeEntries := 0
  mMemoryMapKey := 0
  mMemoryTypeInformationInitialized := false
  mMemoryTypeStatistics := fun type =>
    { baseAddress := 0
      maximumAddress := cfg.maxAllocAddress
      currentNumberOfPages := 0
      numberOfPages := 0
      informationIndex := efiMaxMemoryType
      special := isSpecial type
      runtime := isRuntime type }
  mDefaultMaximumAddress := cfg.maxAllocAddress
  mDefaultBaseAddress := cfg.maxAllocAddress
  gMemoryTypeInformation := information
  mGcdMemorySpaceMap := gcdMap
  gMemoryLock := false
  mGcdMemorySpaceLock := false
  added := []
  released := []
  promotions := []
  updates := 0

def assertThat (p : Prop) [Decidable p] : PageM Unit := if p then pure () else throw .assert

/-! ### Locks -/

def coreAcquireMemoryLock : PageM Unit := do
  assertThat ((← get).gMemoryLock = false)
  modify fun s => { s with gMemoryLock := true }

/-- The map is exposed to whoever runs next. -/
def coreReleaseMemoryLock : PageM Unit := do
  assertThat ((← get).gMemoryLock = true)
  modify fun s =>
    { s with gMemoryLock := false, released := ⟨s.gMemoryMap, s.added⟩ :: s.released }

def coreAcquireGcdMemoryLock : PageM Unit := do
  assertThat ((← get).mGcdMemorySpaceLock = false)
  modify fun s => { s with mGcdMemorySpaceLock := true }

def coreReleaseGcdMemoryLock : PageM Unit := do
  assertThat ((← get).mGcdMemorySpaceLock = true)
  modify fun s => { s with mGcdMemorySpaceLock := false }

/-- `ASSERT_LOCKED (&gMemoryLock)`. -/
def assertLocked : PageM Unit := do
  assertThat ((← get).gMemoryLock = true)

/-! ### CoreAddRange -/

/-- `RemoveMemoryMapEntry`: how many descriptors go back to the free list. -/
def MemoryMap.freed (entry : MemoryMap) : ℕ := if entry.fromPages then 1 else 0

/-- What the search for adjoining descriptors leaves: the grown range, the list without the
descriptors that were merged, and how many of them went back to the free list. -/
structure Adjoined where
  start : ℕ
  stop : ℕ
  kept : List MemoryMap
  freed : ℕ
deriving DecidableEq, Repr

def Adjoined.keep (entry : MemoryMap) (r : Adjoined) : Adjoined :=
  { r with kept := entry :: r.kept }

def Adjoined.remove (entry : MemoryMap) (r : Adjoined) : Adjoined :=
  { r with freed := entry.freed + r.freed }

/-- The loop of `CoreAddRange`: look for adjoining descriptors. -/
def adjoin (type : MemoryType) (attr : BitVec 64) : List MemoryMap → ℕ → ℕ → Adjoined
  | [], start, stop => { start := start, stop := stop, kept := [], freed := 0 }
  | entry :: rest, start, stop =>
    if entry.type ≠ type ∨ entry.attr ≠ attr then
      (adjoin type attr rest start stop).keep entry
    else if u64 (entry.stop + 1) = start then
      (adjoin type attr rest entry.start stop).remove entry
    else if entry.start = u64 (stop + 1) then
      (adjoin type attr rest start entry.stop).remove entry
    else (adjoin type attr rest start stop).keep entry

/-- Fill the next slot of `mMapStack` and link it in at the tail of `gMemoryMap`. -/
def pushMapStack (type : MemoryType) (start stop : ℕ) (attr : BitVec 64) : PageM Unit := do
  modify fun s =>
    { s with
      gMemoryMap := s.gMemoryMap ++
        [{ slot := some s.mMapDepth, type := type, start := start, stop := stop
           attr := attr }]
      mMapDepth := s.mMapDepth + 1 }
  let s ← get
  if s.mMapDepth < maxMapDepth then pure () else throw .overflow

/-- Take the adjoining descriptors out of the map. -/
def removeAdjoining (type : MemoryType) (start stop : ℕ) (attr : BitVec 64) :
    PageM (ℕ × ℕ) := do
  let s ← get
  let r := adjoin type attr s.gMemoryMap start stop
  set { s with gMemoryMap := r.kept, freeEntries := s.freeEntries + r.freed }
  return (r.start, r.stop)

def coreAddRange (type : MemoryType) (start stop : ℕ) (attr : BitVec 64) : PageM Unit := do
  assertThat (start % efiPageSize = 0)
  assertThat (stop > start)
  assertLocked
  modify fun s => { s with mMemoryMapKey := u64 (s.mMemoryMapKey + 1), updates := s.updates + 1 }
  let range ← removeAdjoining type start stop attr
  pushMapStack type range.1 range.2 attr

/-- A range that was not in the map before is added. -/
def addNewRange (type : MemoryType) (start stop : ℕ) (attr : BitVec 64) : PageM Unit := do
  modify fun s => { s with added := (start, stop) :: s.added }
  coreAddRange type start stop attr

/-! ### CoreConvertPagesEx -/

/-- `ChangingType` with `NewType`, or `ChangingAttributes` with `NewAttributes`. -/
inductive Change
  | type (newType : MemoryType)
  | attributes (newAttributes : BitVec 64)
deriving DecidableEq, Repr

/-- `MemType` of the new range. -/
def Change.memType (entry : MemoryMap) : Change → MemoryType
  | .type newType => newType
  | .attributes _ => entry.type

/-- `Attribute` of the new range. -/
def Change.attr (entry : MemoryMap) : Change → BitVec 64
  | .type _ => entry.attr
  | .attributes newAttributes => newAttributes

/-- The conversion is not allowed: an allocation may not cover several descriptors, and exactly one
of the old and the new type has to be `EfiConventionalMemory`. -/
def Change.Refused (entry : MemoryMap) (stop : ℕ) : Change → Prop
  | .type newType =>
    (newType ≠ efiConventionalMemory ∧ entry.stop < stop) ∨
      (newType = efiConventionalMemory ↔ entry.type = efiConventionalMemory)
  | .attributes _ => False

instance (entry : MemoryMap) (stop : ℕ) : (change : Change) → Decidable (change.Refused entry stop)
  | .type _ => inferInstanceAs (Decidable (_ ∨ _))
  | .attributes _ => inferInstanceAs (Decidable False)

/-- The first descriptor that covers an address, with those before and after it. -/
def findCover (start : ℕ) : List MemoryMap → Option (List MemoryMap × MemoryMap × List MemoryMap)
  | [] => none
  | entry :: rest =>
    if entry.start ≤ start ∧ entry.stop > start then some ([], entry, rest)
    else (findCover start rest).map fun (before, found, after) => (entry :: before, found, after)

/-- The address is in the bin of the type or in the default bin. -/
def State.inBin (s : State) (type : MemoryType) (start : ℕ) : Prop :=
  (start ≥ (s.mMemoryTypeStatistics type).baseAddress ∧
      start ≤ (s.mMemoryTypeStatistics type).maximumAddress) ∨
    (start ≥ s.mDefaultBaseAddress ∧ start ≤ s.mDefaultMaximumAddress)

instance (s : State) (type : MemoryType) (start : ℕ) : Decidable (s.inBin type start) :=
  inferInstanceAs (Decidable (_ ∨ _))

def State.setStatistics (s : State) (type : MemoryType) (statistics : TypeStatistics) : State :=
  { s with mMemoryTypeStatistics := Function.update s.mMemoryTypeStatistics type statistics }

/-- Fewer pages are allocated to the old type. -/
def countFreed (type : MemoryType) (start numberOfPages : ℕ) (s : State) : State :=
  if type < efiMaxMemoryType ∧ s.inBin type start then
    let statistics := s.mMemoryTypeStatistics type
    s.setStatistics type
      { statistics with
        currentNumberOfPages :=
          if numberOfPages > statistics.currentNumberOfPages then 0
          else statistics.currentNumberOfPages - numberOfPages }
  else s

/-- More pages are allocated to the new type; a new maximum goes to the type information. -/
def countAllocated (type : MemoryType) (start numberOfPages : ℕ) (s : State) : State :=
  if type < efiMaxMemoryType ∧ s.inBin type start then
    let statistics := s.mMemoryTypeStatistics type
    let current := u64 (statistics.currentNumberOfPages + numberOfPages)
    let index := statistics.informationIndex
    let s := s.setStatistics type { statistics with currentNumberOfPages := current }
    { s with
      gMemoryTypeInformation := s.gMemoryTypeInformation.modify index fun information =>
        if current > information.numberOfPages then
          { information with numberOfPages := current % 2 ^ 32 }
        else information }
  else s

/-- Update the counters for the number of pages allocated to each memory type. -/
def Change.count (entry : MemoryMap) (start numberOfPages : ℕ) : Change → State → State
  | .type newType, s =>
    countAllocated newType start numberOfPages (countFreed entry.type start numberOfPages s)
  | .attributes _, s => s

/-- The descriptor is empty. -/
def MemoryMap.Empty (entry : MemoryMap) : Prop := entry.start = u64 (entry.stop + 1)

instance (entry : MemoryMap) : Decidable entry.Empty := inferInstanceAs (Decidable (_ = _))

/-- Put a clipped descriptor back into its place, or remove it if it is empty. -/
def putClipped (before : List MemoryMap) (entry : MemoryMap) (after : List MemoryMap) :
    PageM Unit :=
  if entry.Empty then
    modify fun s =>
      { s with gMemoryMap := before ++ after, freeEntries := s.freeEntries + entry.freed }
  else modify fun s => { s with gMemoryMap := before ++ entry :: after }

/-- Pull the range from `start` to `rangeEnd` out of a descriptor. The part above a range in the
centre starts a slot of its own; it ends above `rangeEnd`, so it is not empty. -/
def pullOut (before : List MemoryMap) (entry : MemoryMap) (after : List MemoryMap)
    (start rangeEnd : ℕ) : PageM Unit :=
  if entry.start = start then putClipped before { entry with start := u64 (rangeEnd + 1) } after
  else if entry.stop = rangeEnd then putClipped before { entry with stop := start - 1 } after
  else do
    modify fun s => { s with gMemoryMap := before ++ { entry with stop := start - 1 } :: after }
    assertThat (entry.start < start - 1)
    pushMapStack entry.type (u64 (rangeEnd + 1)) entry.stop entry.attr

/-- `RangeEnd`: the end of the range, or of the descriptor if that is all there is. -/
def rangeEndOf (entry : MemoryMap) (stop : ℕ) : ℕ := if entry.stop < stop then entry.stop else stop

/-- The conversion of the part of the range that lies in one descriptor. -/
def convertFound (change : Change) (numberOfPages start stop : ℕ) (before : List MemoryMap)
    (entry : MemoryMap) (after : List MemoryMap) : PageM (Option ℕ) :=
  if change.Refused entry stop then return none
  else do
    modify (change.count entry start numberOfPages)
    pullOut before entry after start (rangeEndOf entry stop)
    coreAddRange (change.memType entry) start (rangeEndOf entry stop) (change.attr entry)
    return some (rangeEndOf entry stop)

/-- One iteration of `CoreConvertPagesEx` up to `CoreFreeMemoryMapStack`: `RangeEnd`, or `none`
for `EFI_NOT_FOUND`. -/
def convertEntry (change : Change) (numberOfPages start stop : ℕ) : PageM (Option ℕ) := do
  let s ← get
  match findCover start s.gMemoryMap with
  | none => return none
  | some (before, entry, after) => convertFound change numberOfPages start stop before entry after

/-- What follows an iteration: drain the stack and go on behind `RangeEnd`. -/
def convertNext (drain : PageM Unit) (next : ℕ → PageM EfiStatus) :
    Option ℕ → PageM EfiStatus
  | none => return .notFound
  | some rangeEnd => do
    drain
    next (u64 (rangeEnd + 1))

/-- `while (Start < End)`. Unless the address wraps around, `Start` grows in each iteration. -/
def convertLoop (drain : PageM Unit) (change : Change) (numberOfPages stop : ℕ) :
    ℕ → ℕ → PageM EfiStatus
  | 0, start => if start < stop then throw .loop else return .success
  | fuel + 1, start =>
    if start < stop then do
      let rangeEnd ← convertEntry change numberOfPages start stop
      convertNext drain (convertLoop drain change numberOfPages stop fuel) rangeEnd
    else return .success

/-- `Start + (NumberOfPages << EFI_PAGE_SHIFT) - 1`. -/
def endOfPages (start numberOfPages : ℕ) : ℕ :=
  u64 (start + u64 (numberOfPages * efiPageSize) + (2 ^ 64 - 1))

def coreConvertPagesEx (drain : PageM Unit) (start numberOfPages : ℕ) (change : Change) :
    PageM EfiStatus := do
  let stop := endOfPages start numberOfPages
  assertThat (numberOfPages ≠ 0)
  assertThat (start % efiPageSize = 0)
  assertThat (stop > start)
  assertLocked
  convertLoop drain change numberOfPages stop (stop - start) start

def coreConvertPages (drain : PageM Unit) (start numberOfPages : ℕ) (newType : MemoryType) :
    PageM EfiStatus :=
  coreConvertPagesEx drain start numberOfPages (.type newType)

/-! ### Promotion -/

/-- The entries that `PromoteMemoryResource` takes. -/
def untested (cfg : Config) (entry : GcdMapEntry) : Bool :=
  promotable entry ∧ entry.endAddress < cfg.maxAllocAddress

/-- The attributes of promoted memory. -/
def promotedAttributes (entry : GcdMapEntry) : BitVec 64 :=
  (entry.capabilities ||| efiMemoryTested) &&&
    ~~~(efiMemoryPresent ||| efiMemoryInitialized ||| efiMemoryTested ||| efiMemoryRuntime)

/-- The loop over `mGcdMemorySpaceMap`; `index` is the position of the first entry that is left. -/
def promoteLoop (cfg : Config) (drain : PageM Unit) :
    List GcdMapEntry → ℕ → Bool → PageM Bool
  | [], _, promoted => return promoted
  | entry :: rest, index, promoted =>
    if untested cfg entry then do
      modify fun s =>
        { s with mGcdMemorySpaceMap :=
            s.mGcdMemorySpaceMap.set index (promoteEntry cfg.gDxeCoreImageHandle entry) }
      addNewRange efiConventionalMemory entry.baseAddress entry.endAddress
        (promotedAttributes entry)
      drain
      promoteLoop cfg drain rest (index + 1) true
    else promoteLoop cfg drain rest (index + 1) promoted

/-- Observe a promotion that is made while draining is suspended. -/
def observePromotion (cfg : Config) (s : State) : State :=
  if s.mFreeMapStack ≠ 0 then
    { s with promotions :=
        ⟨s.mMapDepth, s.mGcdMemorySpaceMap.countP (untested cfg)⟩ :: s.promotions }
  else s

def promoteMemoryResource (cfg : Config) (drain : PageM Unit) : PageM Bool := do
  coreAcquireGcdMemoryLock
  modify (observePromotion cfg)
  let s ← get
  let promoted ← promoteLoop cfg drain s.mGcdMemorySpaceMap 0 false
  coreReleaseGcdMemoryLock
  return promoted

/-! ### FindFreePages -/

/-- `MaxAddress` lowered to the end of a page. -/
def endOfPage (maxAddress : ℕ) : ℕ :=
  if maxAddress % efiPageSize ≠ efiPageMask then
    (maxAddress - efiPageSize) / efiPageSize * efiPageSize + efiPageMask
  else maxAddress

/-- `DescEnd` of a descriptor: its end, not above `MaxAddress` and aligned. -/
def descEnd (maxAddress alignment : ℕ) (entry : MemoryMap) : ℕ :=
  let limit := u64 ((if entry.stop ≥ maxAddress then maxAddress else entry.stop) + 1)
  u64 (limit - limit % alignment + (2 ^ 64 - 1))

/-- The best match so far, after a look at one more descriptor. -/
def bestMatch (maxAddress minAddress numberOfBytes alignment target : ℕ) (entry : MemoryMap) : ℕ :=
  let last := descEnd maxAddress alignment entry
  if entry.type ≠ efiConventionalMemory then target
  else if entry.start ≥ maxAddress ∨ entry.stop < minAddress then target
  else if last < entry.start then target
  else if u64 (last - entry.start + 1) ≥ numberOfBytes then
    if u64 (last + 2 ^ 64 - numberOfBytes + 1) < minAddress then target
    else if last > target then last
    else target
  else target

/-- `CoreFindFreePagesI`; the result is `0` if there is no match. -/
def coreFindFreePagesI (maxAddress minAddress numberOfPages alignment : ℕ)
    (map : List MemoryMap) : ℕ :=
  if maxAddress < efiPageMask ∨ numberOfPages = 0 then 0
  else
    let numberOfBytes := u64 (numberOfPages * efiPageSize)
    let target :=
      map.foldl (bestMatch (endOfPage maxAddress) minAddress numberOfBytes alignment) 0
    let base := u64 (target + 2 ^ 64 + 1 - numberOfBytes)
    if base % efiPageSize ≠ 0 then 0 else base

/-- The search in the bin of the type, then in the default bin, then anywhere. -/
def searchBins (maxAddress noPages : ℕ) (newType : MemoryType) (alignment : ℕ) (s : State) :
    ℕ × State :=
  let statistics := s.mMemoryTypeStatistics newType
  let inBin :=
    if newType < efiMaxMemoryType ∧ maxAddress ≥ statistics.maximumAddress then
      coreFindFreePagesI statistics.maximumAddress statistics.baseAddress noPages alignment
        s.gMemoryMap
    else 0
  let inDefault :=
    if maxAddress ≥ s.mDefaultMaximumAddress then
      coreFindFreePagesI s.mDefaultMaximumAddress 0 noPages alignment s.gMemoryMap
    else 0
  if inBin ≠ 0 then (inBin, s)
  else if inDefault ≠ 0 then
    (inDefault,
      if inDefault < s.mDefaultBaseAddress then { s with mDefaultBaseAddress := inDefault } else s)
  else (coreFindFreePagesI maxAddress 0 noPages alignment s.gMemoryMap, s)

/-- Search in the current map. -/
def findInBins (maxAddress noPages : ℕ) (newType : MemoryType) (alignment : ℕ) : PageM ℕ := do
  let s ← get
  let r := searchBins maxAddress noPages newType alignment s
  set r.2
  return r.1

/-- `FindFreePages`. A promotion takes all untested memory, so after one the next finds none and
the recursion ends. -/
def findFreePages (cfg : Config) (drain : PageM Unit) (maxAddress noPages : ℕ)
    (newType : MemoryType) (alignment : ℕ) : ℕ → PageM ℕ
  | 0 => throw .loop
  | fuel + 1 => do
    let start ← findInBins maxAddress noPages newType alignment
    if start ≠ 0 then return start
    else do
      let promoted ← promoteMemoryResource cfg drain
      if promoted then findFreePages cfg drain maxAddress noPages newType alignment fuel
      else return 0

/-- Convert the pages that were found. -/
def convertFoundPages (drain : PageM Unit) (poolType : MemoryType) (numberOfPages start : ℕ) :
    PageM Unit :=
  if start = 0 then return ()
  else do
    let _ ← coreConvertPages drain start numberOfPages poolType
    return ()

/-- `CoreAllocatePoolPages`; the status of the conversion is not looked at. -/
def coreAllocatePoolPages (cfg : Config) (drain : PageM Unit) (poolType : MemoryType)
    (numberOfPages alignment : ℕ) : PageM ℕ := do
  let start ← findFreePages cfg drain cfg.maxAllocAddress numberOfPages poolType alignment 2
  convertFoundPages drain poolType numberOfPages start
  return start

def coreFreePoolPages (drain : PageM Unit) (memory numberOfPages : ℕ) : PageM Unit := do
  let _ ← coreConvertPages drain memory numberOfPages efiConventionalMemory
  return ()

/-! ### CoreFreeMemoryMapStack -/

/-- Refill the list of free descriptors with a page; whether there is one. -/
def refill (cfg : Config) (drain : PageM Unit) : PageM Bool := do
  let start ← coreAllocatePoolPages cfg drain efiBootServicesData 1 efiPageSize
  if start = 0 then return false
  else do
    modify fun s => { s with freeEntries := s.freeEntries + entriesPerPage }
    return true

/-- Whether there are free descriptors, after the attempt to provide some. -/
def provideEntries (cfg : Config) (drain : PageM Unit) : PageM Bool := do
  let s ← get
  if s.freeEntries = 0 then refill cfg drain else return true

/-- Take the first free descriptor. -/
def dequeue (available : Bool) : PageM Bool :=
  if available then do
    modify fun s => { s with freeEntries := s.freeEntries - 1 }
    return true
  else return false

/-- `AllocateMemoryMapEntry`; `false` stands for `NULL`. -/
def allocateMemoryMapEntry (cfg : Config) (drain : PageM Unit) : PageM Bool := do
  let available ← provideEntries cfg drain
  dequeue available

/-- The descriptor in a slot, and the list without it. -/
def takeSlot (slot : ℕ) : List MemoryMap → Option (MemoryMap × List MemoryMap)
  | [] => none
  | entry :: rest =>
    if entry.slot = some slot then some (entry, rest)
    else (takeSlot slot rest).map fun (found, rest) => (found, entry :: rest)

/-- Insert before the first descriptor from pages with a larger start. -/
def insertEntry (entry : MemoryMap) : List MemoryMap → List MemoryMap
  | [] => [entry]
  | next :: rest =>
    if next.fromPages ∧ next.start > entry.start then entry :: next :: rest
    else next :: insertEntry entry rest

/-- Move the top of the stack to a descriptor; a slot that is not linked in needs none. -/
def popMapStack (s : State) : State :=
  let depth := s.mMapDepth - 1
  match takeSlot depth s.gMemoryMap with
  | some (entry, rest) =>
    { s with mMapDepth := depth, gMemoryMap := insertEntry { entry with slot := none } rest }
  | none => { s with mMapDepth := depth, freeEntries := s.freeEntries + 1 }

/-- `while (mMapDepth != 0)`. After a refill there are enough descriptors for the whole stack, so
twice the size of the stack bounds the iterations. -/
def drainLoop (cfg : Config) (drain : PageM Unit) : ℕ → PageM Unit
  | 0 => do
    let s ← get
    if s.mMapDepth ≠ 0 then throw .loop else return ()
  | fuel + 1 => do
    let s ← get
    if s.mMapDepth ≠ 0 then do
      let available ← allocateMemoryMapEntry cfg drain
      assertThat (available = true)
      modify popMapStack
      drainLoop cfg drain fuel
    else return ()

/-- The call of `CoreFreeMemoryMapStack` from within itself. -/
def suspendedDrain : PageM Unit := do
  assertLocked
  let s ← get
  if s.mFreeMapStack ≠ 0 then return () else throw .nested

/-- Set `mFreeMapStack` for the time of the loop. -/
def drainStack (cfg : Config) : PageM Unit := do
  modify fun s => { s with mFreeMapStack := s.mFreeMapStack + 1 }
  drainLoop cfg suspendedDrain (2 * maxMapDepth)
  modify fun s => { s with mFreeMapStack := s.mFreeMapStack - 1 }

def coreFreeMemoryMapStack (cfg : Config) : PageM Unit := do
  assertLocked
  let s ← get
  if s.mFreeMapStack ≠ 0 then return () else drainStack cfg

end Edk2.Page
