import Edk2.Variable.Region

/-!
# Variables in the DXE phase

`RuntimeDxe/Variable.c`: finding a variable in one store, reclaiming a store, and the walk that
initialises the totals. Every access to a store or to the buffer of a reclaim is checked against its
region; what a step has read already is not read again. Addresses do not wrap around.
-/

namespace Edk2.VariableDxe

open Variable

/-- `AuthFormat`, `AtRuntime ()`, and whether an `ASSERT` stops the driver. -/
structure Global where
  authFormat : Bool
  atRuntime : Bool
  asserts : Bool
deriving DecidableEq, Repr

def sizesOffset (authFlag : Bool) : ℕ := if authFlag then 36 else 8

def guidOffset (authFlag : Bool) : ℕ := if authFlag then 44 else 16

/-- The attribute bits `EFI_VARIABLE_RUNTIME_ACCESS` and `EFI_VARIABLE_HARDWARE_ERROR_RECORD`. -/
def hasRuntimeAccess (attributes : ℕ) : Bool := attributes.testBit 2

def isHardwareErrorRecord (attributes : ℕ) : Bool := attributes.testBit 3

/-! ### Headers -/

namespace Region

variable (s : Region) (authFlag : Bool)

def startPtr : ℕ := getStartPointer s.base

def endPtr : ℕ := getEndPointer s.bytes s.base

/-- The end of the region. -/
def limit : ℕ := s.base + s.size

def isValidVariableHeader (ptr stop : ℕ) : Except Fault Bool :=
  if ptr = 0 ∨ stop ≤ ptr then return false
  else do
    s.touch ptr 2
    return Variable.isValidVariableHeader (headerAt s.bytes ptr)

/-- What `NameSizeOfVariable` and `DataSizeOfVariable` read. -/
def touchSizes (ptr : ℕ) : Except Fault Unit := do
  s.touch (ptr + 2) 1
  if state (headerAt s.bytes ptr) = 2 ^ 8 - 1 then return ()
  else s.touch (ptr + sizesOffset authFlag) 8

def getNextVariablePtr (ptr : ℕ) : Except Fault ℕ := do
  s.touchSizes authFlag ptr
  return nextAt s.bytes authFlag ptr

end Region

/-- `for (..; IsValidVariableHeader (Variable, End); Variable = GetNextVariablePtr (Variable))`, with
the pointer at which the loop ends. -/
def forVariables {σ : Type} (authFlag : Bool) (s : Region) (stop : ℕ)
    (body : ℕ → ℕ → σ → Except Fault σ) : ℕ → ℕ → σ → Except Fault (ℕ × σ)
  | 0, _, _ => .error .running
  | fuel + 1, ptr, acc => do
    if ← s.isValidVariableHeader ptr stop then
      let next ← s.getNextVariablePtr authFlag ptr
      let acc ← body ptr next acc
      forVariables authFlag s stop body fuel next acc
    else return (ptr, acc)

/-! ### `FindVariableEx` -/

/-- What is looked for: `VariableName` is the memory from the pointer on. -/
structure Query where
  variableName : Bytes
  vendorGuid : ℕ
  ignoreRtCheck : Bool

/-- The variable at `ptr` may be accessed. -/
def isVisible (g : Global) (s : Region) (q : Query) (ptr : ℕ) : Except Fault Bool :=
  if q.ignoreRtCheck || !g.atRuntime then return true
  else do
    s.touch (ptr + 4) 4
    return hasRuntimeAccess (attributes (headerAt s.bytes ptr))

/-- The variable at `ptr` has the name and the GUID that are looked for; `CompareMem` reads all of the
stored name. -/
def isNamed (g : Global) (s : Region) (q : Query) (ptr : ℕ) : Except Fault Bool :=
  let header := headerAt s.bytes ptr
  let nameSize := nameSizeOfVariable header g.authFormat
  let point := getVariableNamePtr ptr g.authFormat
  if word q.variableName 0 2 = 0 then return true
  else do
    s.touch (ptr + guidOffset g.authFormat) 16
    if q.vendorGuid = vendorGuid header g.authFormat then do
      s.touchSizes g.authFormat ptr
      if g.asserts ∧ nameSize = 0 then throw .assert
      else do
        s.touch point nameSize
        return decide (readBytes q.variableName 0 nameSize = readBytes s.bytes point nameSize)
    else return false

/-- The variable at `ptr` is live, may be accessed, and is the one that is looked for. -/
def qualifies (g : Global) (s : Region) (q : Query) (ptr : ℕ) : Except Fault Bool := do
  s.touch (ptr + 2) 1
  if isLive (headerAt s.bytes ptr) then
    if ← isVisible g s q ptr then isNamed g s q ptr else return false
  else return false

/-- The loop of `FindVariableEx`: `CurrPtr` and `InDeletedTransitionPtr`. -/
def findLoop (g : Global) (s : Region) (q : Query) :
    ℕ → ℕ → Option ℕ → Except Fault (Option ℕ × Option ℕ)
  | 0, _, _ => .error .running
  | fuel + 1, ptr, inDeleted => do
    if ← s.isValidVariableHeader ptr s.endPtr then
      let found ← qualifies g s q ptr
      if found then
        if state (headerAt s.bytes ptr) = varInDeletedAdded then
          let next ← s.getNextVariablePtr g.authFormat ptr
          findLoop g s q fuel next (some ptr)
        else return (some ptr, inDeleted)
      else
        let next ← s.getNextVariablePtr g.authFormat ptr
        findLoop g s q fuel next inDeleted
    else return (inDeleted, none)

/-- `FindVariableEx` in the whole store. -/
def findVariableEx (g : Global) (s : Region) (q : Query) : Except Fault (Option ℕ × Option ℕ) :=
  findLoop g s q (s.endPtr - s.startPtr + 1) s.startPtr none

/-! ### Totals -/

/-- `HwErrVariableTotalSize`, `CommonVariableTotalSize`, `CommonUserVariableTotalSize`. -/
structure Totals where
  hwErr : ℕ
  common : ℕ
  commonUser : ℕ
deriving DecidableEq, Repr

/-- A non-volatile variable of `size` bytes is counted. -/
def Totals.add (t : Totals) (isUser : Bool) (attributes size : ℕ) : Totals :=
  if isHardwareErrorRecord attributes then { t with hwErr := t.hwErr + size }
  else { t with
    common := t.common + size
    commonUser := if isUser then t.commonUser + size else t.commonUser }

/-- What the driver takes from elsewhere: the sizes that the platform sets, `IsUserVariable`,
`AllocatePool`, and the status of `FtwVariableSpace`. -/
structure Services where
  hwErrStorageSize : ℕ
  commonVariableSpace : ℕ
  commonMaxUserVariableSpace : ℕ
  isUserVariable : StoredVariable → Bool
  allocatePool : ℕ → Option Region
  ftwVariableSpace : EfiStatus

/-- The variable at `ptr` of a store is counted. -/
def countVariable (g : Global) (isUser : StoredVariable → Bool) (s : Region) (ptr next : ℕ)
    (t : Totals) : Totals :=
  t.add (isUser (variableAt s.bytes g.authFormat ptr)) (attributes (headerAt s.bytes ptr))
    (next - ptr)

/-- A walk that counts all variables: `LastVariableOffset` and the totals. -/
def totalsWalk (g : Global) (s : Region) (count : ℕ → ℕ → Totals → Totals) :
    Except Fault (ℕ × Totals) := do
  let (last, totals) ← forVariables g.authFormat s s.endPtr
    (fun ptr next (t : Totals) => do
      s.touch (ptr + 4) 4
      return count ptr next t)
    (s.endPtr - s.startPtr + 1) s.startPtr ⟨0, 0, 0⟩
  return (last - s.base, totals)

/-- The walk of `InitNonVolatileVariableStore`. -/
def initNonVolatileVariableStore (g : Global) (s : Region) : Except Fault (ℕ × Totals) :=
  totalsWalk g s fun ptr next t =>
    let attributes := attributes (headerAt s.bytes ptr)
    if attributes.testBit 0 && isHardwareErrorRecord attributes then
      { t with hwErr := t.hwErr + (next - ptr) }
    else { t with common := t.common + (next - ptr) }

/-! ### `Reclaim` -/

/-- `VARIABLE_POINTER_TRACK`. -/
structure PtrTrack where
  startPtr : ℕ
  currPtr : Option ℕ
  inDeletedTransitionPtr : Option ℕ
deriving DecidableEq, Repr

/-- `ValidBuffer`, `CurrPtr` and the totals. -/
structure Pass where
  buffer : Region
  currPtr : ℕ
  totals : Totals

/-- The arguments of a reclaim: `IsVolatile`, `EmuNvMode`, `UpdatingPtrTrack`, and the bytes and the
size of `NewVariable`. -/
structure Request where
  isVolatile : Bool
  emuNvMode : Bool
  updating : Option PtrTrack
  newVariable : Option (Bytes × ℕ)

/-- The variable at `ptr` is the one that is updated. -/
def Request.isUpdating (r : Request) (ptr : ℕ) : Bool := (r.updating.bind (·.currPtr)) = some ptr

/-- The variable at `ptr` is the old copy of the one that is updated. -/
def Request.isUpdatingInDeleted (r : Request) (ptr : ℕ) : Bool :=
  (r.updating.bind (·.inDeletedTransitionPtr)) = some ptr

/-- Whether the buffer is allocated, and not the cache. -/
def Request.inPool (r : Request) : Bool := r.isVolatile || r.emuNvMode

section

variable (g : Global) (services : Services) (s : Region) (r : Request)

/-- `CopyMem (CurrPtr, Variable, VariableSize)`. -/
def copyVariable (ptr next : ℕ) (pass : Pass) : Except Fault Pass := do
  s.touch ptr (next - ptr)
  let buffer ← pass.buffer.write pass.currPtr (readBytes s.bytes ptr (next - ptr))
  return { pass with buffer := buffer }

/-- `CurrPtr += VariableSize`, and the variable is counted unless it is volatile. -/
def Pass.advance (pass : Pass) (ptr next : ℕ) : Pass :=
  { pass with
    currPtr := pass.currPtr + (next - ptr)
    totals := if r.isVolatile then pass.totals
      else countVariable g services.isUserVariable s ptr next pass.totals }

/-- The body of the first loop: an added variable is kept. -/
def reinstallAdded (ptr next : ℕ) (pass : Pass) : Except Fault Pass :=
  if !r.isUpdating ptr ∧ state (headerAt s.bytes ptr) = varAdded then do
    let pass ← copyVariable s ptr next pass
    return pass.advance g services s r ptr next
  else return pass

/-- The two variables have the same name and GUID. -/
def isSameVariable (b : Region) (added ptr : ℕ) : Except Fault Bool := do
  let header := headerAt b.bytes added
  let header' := headerAt s.bytes ptr
  let nameSize := nameSizeOfVariable header g.authFormat
  b.touch (added + guidOffset g.authFormat) 16
  s.touch (ptr + guidOffset g.authFormat) 16
  if vendorGuid header g.authFormat = vendorGuid header' g.authFormat ∧
      nameSize = nameSizeOfVariable header' g.authFormat then
    let point₀ := getVariableNamePtr added g.authFormat
    let point₁ := getVariableNamePtr ptr g.authFormat
    b.touch point₀ nameSize
    s.touch point₁ nameSize
    return decide (readBytes b.bytes point₀ nameSize = readBytes s.bytes point₁ nameSize)
  else return false

/-- The search in the buffer for an added copy of the variable at `ptr`. -/
def findAdded (b : Region) (ptr : ℕ) : ℕ → ℕ → Except Fault Bool
  | 0, _ => .error .running
  | fuel + 1, added => do
    if ← b.isValidVariableHeader added b.endPtr then
      let next ← b.getNextVariablePtr g.authFormat added
      let same ← isSameVariable g s b added ptr
      if same then return true else findAdded b ptr fuel next
    else return false

/-- `((VARIABLE_HEADER *) CurrPtr)->State = VAR_ADDED`. -/
def Pass.setAdded (pass : Pass) : Except Fault Pass := do
  let buffer ← pass.buffer.write (pass.currPtr + 2) [UInt8.ofNat varAdded]
  return { pass with buffer := buffer }

/-- The body of the second loop: a variable that is about to be deleted is added again if the buffer
has none of its name. -/
def reinstallInDeleted (ptr next : ℕ) (pass : Pass) : Except Fault Pass :=
  if !r.isUpdating ptr ∧ !r.isUpdatingInDeleted ptr ∧
      state (headerAt s.bytes ptr) = varInDeletedAdded then do
    let b := pass.buffer
    let foundAdded ← findAdded g s b ptr (b.endPtr - b.startPtr + 1) b.startPtr
    if foundAdded then return pass
    else do
      let pass ← copyVariable s ptr next pass
      let pass ← pass.setAdded
      return pass.advance g services s r ptr next
  else return pass

/-- The size of the buffer for what is to be kept. -/
def maximumBufferSize : Except Fault ℕ := do
  let (_, size) ← forVariables g.authFormat s s.endPtr
    (fun ptr next (size : ℕ) =>
      let header := headerAt s.bytes ptr
      if isLive header ∧ !r.isUpdating ptr ∧ !r.isUpdatingInDeleted ptr then
        return size + (next - ptr)
      else return size)
    (s.endPtr - s.startPtr + 1) s.startPtr variableStoreHeaderSize
  match r.newVariable with
  | some (_, newVariableSize) => return size + newVariableSize + 1
  | none => return size + 1

/-- The new variable is installed; `none` if there is no space for it. -/
def installNew (storeSize : ℕ) (pass : Pass) : Except Fault (Option Pass) :=
  match r.newVariable with
  | none => return some pass
  | some (newVariable, newVariableSize) =>
    if pass.currPtr - pass.buffer.base + newVariableSize > storeSize then return none
    else do
      let totals := if r.isVolatile then pass.totals
        else pass.totals.add (services.isUserVariable (variableAt newVariable g.authFormat 0))
          (attributes newVariable) newVariableSize
      if !r.isVolatile ∧ (totals.hwErr > services.hwErrStorageSize ∨
          totals.common > services.commonVariableSpace ∨
          totals.commonUser > services.commonMaxUserVariableSpace) then return none
      else do
        let buffer ← pass.buffer.write pass.currPtr (readBytes newVariable 0 newVariableSize)
        let pass ← Pass.setAdded ⟨buffer, pass.currPtr, totals⟩
        return some { pass with currPtr := pass.currPtr + newVariableSize }

/-- What a reclaim leaves; `totals` and `lastVariableOffset` are `none` where it leaves them as they
were. -/
structure Reclaimed where
  status : EfiStatus
  store : Region
  cache : Region
  lastVariableOffset : Option ℕ
  totals : Option Totals
  updating : Option PtrTrack

/-- `UpdatingPtrTrack` is moved to the new variable, which lies at `currPtr` of the buffer. -/
def Request.track (start currPtr : ℕ) : Option PtrTrack :=
  match r.updating, r.newVariable with
  | some track, some _ =>
    if track.currPtr = none then some track
    else some ⟨track.startPtr, some (track.startPtr + (currPtr - start)), none⟩
  | track, _ => track

/-- The buffer replaces the store. -/
def replaceStore (cache : Region) (pass : Pass) (updating : Option PtrTrack) :
    Except Fault Reclaimed := do
  let storeSize := word s.bytes (s.base + 16) 4
  let b := pass.buffer
  let offset := pass.currPtr - b.base
  if r.inPool then
    let cleared ← s.write s.base (List.replicate storeSize 0xff)
    b.touch b.base offset
    let store ← cleared.write s.base (readBytes b.bytes b.base offset)
    return ⟨.success, store, cache, some offset,
      if r.isVolatile then none else some pass.totals, updating⟩
  else
    let (status, store, offset, totals) ←
      if services.ftwVariableSpace.isError then do
        let (offset, totals) ← totalsWalk g s (countVariable g services.isUserVariable s)
        pure (services.ftwVariableSpace, s, offset, totals)
      else do
        b.touch b.base storeSize
        let store ← s.write s.base (readBytes b.bytes b.base storeSize)
        pure (.success, store, offset, pass.totals)
    store.touch s.base storeSize
    let cache ← b.write b.base (readBytes store.bytes s.base storeSize)
    return ⟨status, store, cache, some offset, some totals, updating⟩

/-- `ValidBuffer` before anything is copied: allocated, or the cache. -/
def validBuffer (cache : Region) : Except Fault (Option Region) := do
  if r.inPool then
    let size ← maximumBufferSize g s r
    match services.allocatePool size with
    | none => return none
    | some pool => return some (← pool.write pool.base (List.replicate size 0xff))
  else
    cache.touch (cache.base + 16) 4
    let size := word cache.bytes (cache.base + 16) 4
    return some (← cache.write cache.base (List.replicate size 0xff))

/-- `Reclaim` of the store `s`. -/
def reclaim (cache : Region) : Except Fault Reclaimed := do
  s.touch s.base variableStoreHeaderSize
  let storeSize := word s.bytes (s.base + 16) 4
  match ← validBuffer g services s r cache with
  | none => return ⟨.outOfResources, s, cache, none, none, r.updating⟩
  | some buffer => do
    let buffer ← buffer.write buffer.base (readBytes s.bytes s.base variableStoreHeaderSize)
    let pass : Pass := ⟨buffer, buffer.startPtr, ⟨0, 0, 0⟩⟩
    let fuel := s.endPtr - s.startPtr + 1
    let (_, pass) ← forVariables g.authFormat s s.endPtr (reinstallAdded g services s r) fuel
      s.startPtr pass
    let (_, pass) ← forVariables g.authFormat s s.endPtr (reinstallInDeleted g services s r) fuel
      s.startPtr pass
    match ← installNew g services r storeSize pass with
    | none =>
      if r.inPool then return ⟨.outOfResources, s, cache, none, none, r.updating⟩
      else do
        let b := pass.buffer
        s.touch s.base storeSize
        let cache ← b.write b.base (readBytes s.bytes s.base storeSize)
        return ⟨.outOfResources, s, cache, none, none, r.updating⟩
    | some new =>
      replaceStore g services s r cache new (r.track new.buffer.startPtr pass.currPtr)

end

end Edk2.VariableDxe
