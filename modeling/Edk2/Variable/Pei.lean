import Mathlib.Order.Monotone.Basic
import Edk2.Lib.Outcome
import Edk2.Variable.Format

/-!
# Variables in the PEI phase

`Variable/Pei/Variable.c`. When the last write of the fault tolerant write driver was not finished,
the storage from `TargetAddress` on is to be read from the spare block. The variables found so far
are recorded in an index table, which is kept in a HOB, as is the header that is combined from a part
in each of the two blocks. Addresses do not wrap around.
-/

namespace Edk2.Variable

/-- `FAULT_TOLERANT_WRITE_LAST_WRITE_DATA`. -/
structure FtwLastWriteData where
  targetAddress : ℕ
  spareAddress : ℕ
deriving DecidableEq, Repr

abbrev variableIndexTableVolume : ℕ := 122

/-- `VARIABLE_INDEX_TABLE`; `Length` is the length of `index`. -/
structure VariableIndexTable where
  goneThrough : ℕ
  startPtr : ℕ
  endPtr : ℕ
  index : List ℕ
deriving DecidableEq, Repr

/-- The HOBs that the variable services build. -/
structure Hobs where
  indexTable : Option VariableIndexTable
  combinedHeader : Option Bytes

abbrev PeiM := EStateM Halt Hobs

/-- `ASSERT (Condition)`. -/
def assertTrue (condition : Bool) : PeiM Unit :=
  if condition then return () else throw .assert

/-- `VARIABLE_STORE_INFO`; `indexTable` says whether the pointer to the table is set. -/
structure VariableStoreInfo where
  variableStoreHeader : ℕ
  indexTable : Bool
  ftwLastWriteData : Option FtwLastWriteData
  authFlag : Bool
deriving DecidableEq, Repr

/-- The PCDs and the HOBs that the platform provides. -/
structure Platform where
  pcdEmuVariableNvModeEnable : Bool
  pcdFlashNvStorageVariableSize : ℕ
  pcdFlashNvStorageVariableBase64 : ℕ
  pcdFlashNvStorageVariableBase : ℕ
  authVariableHob : Option ℕ
  variableHob : Option ℕ
  ftwHob : Option FtwLastWriteData

section

variable (mem : Bytes)

/-! ### Reading across the two blocks -/

def getNextVariablePtr (storeInfo : VariableStoreInfo) (ptr : ℕ) (header : Bytes) : ℕ :=
  let value := variableEnd ptr header storeInfo.authFlag
  match storeInfo.ftwLastWriteData with
  | none => value
  | some ftw =>
    if ptr < ftw.targetAddress ∧ value ≥ ftw.targetAddress then
      ftw.spareAddress + (value - ftw.targetAddress)
    else value

/-- `CompareMem (..) == 0`. -/
def compareMem (ptr₁ ptr₂ size : ℕ) : Bool := readBytes mem ptr₁ size = readBytes mem ptr₂ size

def compareVariableName (storeInfo : VariableStoreInfo) (name₁ name₂ nameSize : ℕ) : Bool :=
  match storeInfo.ftwLastWriteData with
  | none => compareMem mem name₁ name₂ nameSize
  | some ftw =>
    if name₁ < ftw.targetAddress ∧ name₁ + nameSize > ftw.targetAddress then
      let partialNameSize := ftw.targetAddress - name₁
      compareMem mem name₁ name₂ partialNameSize &&
        compareMem mem ftw.spareAddress (name₂ + partialNameSize) (nameSize - partialNameSize)
    else if name₂ < ftw.targetAddress ∧ name₂ + nameSize > ftw.targetAddress then
      let partialNameSize := ftw.targetAddress - name₂
      compareMem mem name₂ name₁ partialNameSize &&
        compareMem mem ftw.spareAddress (name₁ + partialNameSize) (nameSize - partialNameSize)
    else compareMem mem name₁ name₂ nameSize

/-- `CompareWithValidVariable`, whether it succeeds. -/
def compareWithValidVariable (storeInfo : VariableStoreInfo) (ptr : ℕ) (header : Bytes)
    (variableName guid : ℕ) : PeiM Bool :=
  if word mem variableName 2 = 0 then return true
  else if guid = vendorGuid header storeInfo.authFlag then do
    assertTrue (nameSizeOfVariable header storeInfo.authFlag ≠ 0)
    return compareVariableName mem storeInfo variableName
      (getVariableNamePtr ptr storeInfo.authFlag) (nameSizeOfVariable header storeInfo.authFlag)
  else return false

/-- The header that begins at `ptr` and goes on in the spare block. -/
def combineHeader (ftw : FtwLastWriteData) (ptr : ℕ) : Bytes := fun i =>
  if i < ftw.targetAddress - ptr then mem (ptr + i)
  else mem (ftw.spareAddress + (i - (ftw.targetAddress - ptr)))

/-- The HOB with the combined header, which is built when there is none. -/
def combinedHeaderHob (ftw : FtwLastWriteData) (ptr : ℕ) : PeiM Bytes := do
  let hobs ← get
  match hobs.combinedHeader with
  | some header => return header
  | none => do
    set { hobs with combinedHeader := some (combineHeader mem ftw ptr) }
    return combineHeader mem ftw ptr

/-- `GetVariableHeader`: whether the header is valid, and the header. -/
def getVariableHeader (storeInfo : VariableStoreInfo) (ptr : ℕ) : PeiM (Bool × Bytes) :=
  let consecutive : Bytes := fun i => mem (ptr + i)
  if ptr = 0 then return (false, consecutive)
  else
    match storeInfo.ftwLastWriteData with
    | some ftw =>
      if ptr > ftw.spareAddress ∧ ptr - ftw.spareAddress + ftw.targetAddress ≥
          getEndPointer mem storeInfo.variableStoreHeader then return (false, consecutive)
      else if ptr < ftw.targetAddress ∧
          ptr + getVariableHeaderSize storeInfo.authFlag > ftw.targetAddress then do
        let header ← combinedHeaderHob mem ftw ptr
        return (isValidVariableHeader header, header)
      else return (isValidVariableHeader consecutive, consecutive)
    | none =>
      if ptr ≥ getEndPointer mem storeInfo.variableStoreHeader then return (false, consecutive)
      else return (isValidVariableHeader consecutive, consecutive)

def getVariableNameOrData (storeInfo : VariableStoreInfo) (nameOrData size : ℕ) : List UInt8 :=
  match storeInfo.ftwLastWriteData with
  | none => readBytes mem nameOrData size
  | some ftw =>
    if nameOrData < ftw.targetAddress ∧ nameOrData + size > ftw.targetAddress then
      let partialSize := ftw.targetAddress - nameOrData
      readBytes mem nameOrData partialSize ++ readBytes mem ftw.spareAddress (size - partialSize)
    else readBytes mem nameOrData size

/-! ### Finding a variable -/

/-- Where the search through the index table stands. -/
structure TableSearch where
  offset : ℕ
  maxIndex : ℕ
  variableHeader : Bytes
  inDeletedVariable : ℕ

/-- The search through the index table, from the entry with number `number` on; the variable that was
found, if one was. -/
def tableLoop (storeInfo : VariableStoreInfo) (variableName guid startPtr : ℕ) :
    List ℕ → ℕ → TableSearch → PeiM (Option ℕ × TableSearch)
  | [], _, search => return (none, search)
  | index :: rest, number, search => do
    assertTrue (number < variableIndexTableVolume)
    let offset := search.offset + index
    let maxIndex := startPtr + offset
    let (_, header) ← getVariableHeader mem storeInfo maxIndex
    let found ← compareWithValidVariable mem storeInfo maxIndex header variableName guid
    if found then
      if state header = varInDeletedAdded then
        tableLoop storeInfo variableName guid startPtr rest (number + 1)
          ⟨offset, maxIndex, header, maxIndex⟩
      else return (some maxIndex, ⟨offset, maxIndex, header, search.inDeletedVariable⟩)
    else
      tableLoop storeInfo variableName guid startPtr rest (number + 1)
        ⟨offset, maxIndex, header, search.inDeletedVariable⟩

/-- Where the search through the store stands. -/
structure StoreSearch where
  ptr : ℕ
  lastVariable : ℕ
  stopRecord : Bool
  inDeletedVariable : ℕ

/-- Record a variable in the index table. -/
def recordVariable (storeInfo : VariableStoreInfo) (search : StoreSearch) : PeiM StoreSearch := do
  let hobs ← get
  match storeInfo.indexTable && !search.stopRecord, hobs.indexTable with
  | true, some table =>
    let offset := u64 (search.ptr + 2 ^ 64 - search.lastVariable)
    if offset > 0xFFFF ∨ table.index.length = variableIndexTableVolume then
      return { search with stopRecord := true }
    else do
      set { hobs with indexTable := some { table with index := table.index ++ [offset] } }
      return { search with lastVariable := search.ptr }
  | _, _ => return search

/-- The search through the store; the variable that was found, if one was. -/
def storeLoop (storeInfo : VariableStoreInfo) (variableName guid : ℕ) :
    ℕ → StoreSearch → PeiM (Option ℕ × StoreSearch)
  | 0, _ => throw .loop
  | fuel + 1, search => do
    let (valid, header) ← getVariableHeader mem storeInfo search.ptr
    let next := getNextVariablePtr storeInfo search.ptr header
    if valid then
      if isLive header then do
        let search ← recordVariable storeInfo search
        let found ← compareWithValidVariable mem storeInfo search.ptr header variableName guid
        if found then
          if state header = varInDeletedAdded then
            storeLoop storeInfo variableName guid fuel
              { search with ptr := next, inDeletedVariable := search.ptr }
          else return (some search.ptr, search)
        else storeLoop storeInfo variableName guid fuel { search with ptr := next }
      else storeLoop storeInfo variableName guid fuel { search with ptr := next }
    else return (none, search)

/-- The outcome of a search that did not find an added variable. -/
def deletedOutcome (inDeletedVariable : ℕ) : EfiStatus × ℕ :=
  (if inDeletedVariable = 0 then .notFound else .success, inDeletedVariable)

/-- `IndexTable->GoneThrough = 1`, if all variables are recorded. -/
def recordGoneThrough (storeInfo : VariableStoreInfo) (stopRecord : Bool) : PeiM Unit :=
  if storeInfo.indexTable && !stopRecord then
    modify fun hobs =>
      { hobs with indexTable := hobs.indexTable.map fun table => { table with goneThrough := 1 } }
  else return ()

/-- The search through the store from the last variable of the table on. Each iteration goes on by
the size of a header at least. -/
def searchStore (storeInfo : VariableStoreInfo) (variableName guid : ℕ) (search : TableSearch) :
    PeiM (EfiStatus × ℕ) := do
  let startPtr := getStartPointer storeInfo.variableStoreHeader
  let endPtr := getEndPointer mem storeInfo.variableStoreHeader
  let start : StoreSearch :=
    if search.maxIndex ≠ 0 then
      ⟨getNextVariablePtr storeInfo search.maxIndex search.variableHeader, search.maxIndex, false,
        search.inDeletedVariable⟩
    else ⟨startPtr, startPtr, false, search.inDeletedVariable⟩
  let (found, last) ← storeLoop mem storeInfo variableName guid (endPtr - startPtr + 1) start
  match found with
  | some ptr => return (.success, ptr)
  | none => do
    recordGoneThrough storeInfo last.stopRecord
    return deletedOutcome last.inDeletedVariable

/-- `FindVariableEx`: the status and `PtrTrack->CurrPtr`. -/
def findVariableEx (storeInfo : VariableStoreInfo) (variableName guid : ℕ) :
    PeiM (EfiStatus × ℕ) := do
  if storeInfo.variableStoreHeader = 0 then return (.invalidParameter, 0)
  else if getVariableStoreStatus mem storeInfo.variableStoreHeader ≠ .efiValid then
    return (.unsupported, 0)
  else if word mem (storeInfo.variableStoreHeader + 16) 4 = 2 ^ 32 - 1 then return (.notFound, 0)
  else do
    let hobs ← get
    let none : TableSearch := ⟨0, 0, mem, 0⟩
    match storeInfo.indexTable, hobs.indexTable with
    | true, some table =>
      let (found, search) ←
        tableLoop mem storeInfo variableName guid table.startPtr table.index 0 none
      match found with
      | some ptr => return (.success, ptr)
      | Option.none =>
        if table.goneThrough ≠ 0 then return deletedOutcome search.inDeletedVariable
        else searchStore mem storeInfo variableName guid search
    | _, _ => searchStore mem storeInfo variableName guid none

/-! ### The stores -/

/-- `EFI_FVH_SIGNATURE`, `gEfiSystemNvDataFvGuid`. -/
abbrev efiFvhSignature : ℕ := 0x4856465f
abbrev gEfiSystemNvDataFvGuid : ℕ := 0x504f5b07472785a94c8b7696fff12b8d

inductive VariableStoreType
  | hob
  | nv
deriving DecidableEq, Repr

def getHobVariableStore (platform : Platform) : VariableStoreInfo :=
  match platform.authVariableHob with
  | some header => ⟨header, false, none, true⟩
  | none =>
    match platform.variableHob with
    | some header => ⟨header, false, none, false⟩
    | none => ⟨0, false, none, false⟩

/-- The base of the storage. -/
def Platform.nvStorageBase (platform : Platform) : ℕ :=
  if platform.pcdFlashNvStorageVariableBase64 ≠ 0 then platform.pcdFlashNvStorageVariableBase64
  else platform.pcdFlashNvStorageVariableBase

/-- The firmware volume header that is used, and the last write if the storage is split by it. -/
def Platform.fvHeader (platform : Platform) : ℕ × Option FtwLastWriteData :=
  let base := platform.nvStorageBase
  match platform.ftwHob with
  | none => (base, none)
  | some ftw =>
    if ftw.targetAddress = base then (ftw.spareAddress, none)
    else if ftw.targetAddress > base ∧
        ftw.targetAddress < base + platform.pcdFlashNvStorageVariableSize then (base, some ftw)
    else (base, none)

/-- Build the index table when it is not there. -/
def buildIndexTable (variableStoreHeader : ℕ) : PeiM Unit := do
  let hobs ← get
  match hobs.indexTable with
  | some _ => return ()
  | none =>
    set
      { hobs with
        indexTable := some
          ⟨0, getStartPointer variableStoreHeader, getEndPointer mem variableStoreHeader, []⟩ }

/-- `GetVariableStore` for the storage in flash. -/
def getNvVariableStore (platform : Platform) : PeiM VariableStoreInfo :=
  if platform.pcdEmuVariableNvModeEnable then return ⟨0, false, none, false⟩
  else do
    assertTrue (platform.nvStorageBase ≠ 0)
    let (fvHeader, ftw) := platform.fvHeader
    if word mem (fvHeader + 40) 4 ≠ efiFvhSignature ∨
        word mem (fvHeader + 16) 16 ≠ gEfiSystemNvDataFvGuid then return ⟨0, false, ftw, false⟩
    else do
      let variableStoreHeader := fvHeader + word mem (fvHeader + 48) 2
      buildIndexTable mem variableStoreHeader
      return ⟨variableStoreHeader, true, ftw,
        decide (word mem variableStoreHeader 16 = gEfiAuthenticatedVariableGuid)⟩

def getVariableStore (platform : Platform) : VariableStoreType → PeiM VariableStoreInfo
  | .hob => return getHobVariableStore platform
  | .nv => getNvVariableStore mem platform

/-- The stores of a list, one after the other, until the variable is found. -/
def storesLoop (platform : Platform) (variableName guid : ℕ) :
    List VariableStoreType → VariableStoreInfo → PeiM (EfiStatus × ℕ × VariableStoreInfo)
  | [], storeInfo => return (.notFound, 0, storeInfo)
  | type :: rest, _ => do
    let storeInfo ← getVariableStore mem platform type
    let (status, ptr) ← findVariableEx mem storeInfo variableName guid
    if status.isError then storesLoop platform variableName guid rest storeInfo
    else return (status, ptr, storeInfo)

def findVariable (platform : Platform) (variableName guid : ℕ) :
    PeiM (EfiStatus × ℕ × VariableStoreInfo) :=
  storesLoop mem platform variableName guid [.hob, .nv] ⟨0, false, none, false⟩

/-! ### The service -/

/-- The arguments of `PeiGetVariable`: `variableName` is an address and `0` for `NULL`; of the
pointers to a GUID and to a size the value is given, or `none` for `NULL`. -/
structure GetRequest where
  variableName : ℕ
  variableGuid : Option ℕ
  attributes : Bool
  dataSize : Option ℕ
  data : Bool
deriving DecidableEq, Repr

/-- What `PeiGetVariable` returns and writes. -/
structure GetAnswer where
  status : EfiStatus
  attributes : Option ℕ
  dataSize : Option ℕ
  data : Option (List UInt8)
deriving DecidableEq, Repr

/-- The answer with nothing but a status. -/
def onlyStatus (status : EfiStatus) : GetAnswer := ⟨status, none, none, none⟩

/-- Hand out a variable of the given size, attributes and data. -/
def handOut (request : GetRequest) (size varDataSize varAttributes : ℕ) (data : List UInt8) :
    GetAnswer :=
  if size ≥ varDataSize then
    if request.data then
      ⟨.success, if request.attributes then some varAttributes else none, some varDataSize, some data⟩
    else onlyStatus .invalidParameter
  else ⟨.bufferTooSmall, none, some varDataSize, none⟩

def peiGetVariable (platform : Platform) (request : GetRequest) : PeiM GetAnswer :=
  match request.variableGuid, request.dataSize with
  | some guid, some size =>
    if request.variableName = 0 then return onlyStatus .invalidParameter
    else if word mem request.variableName 2 = 0 then return onlyStatus .notFound
    else do
      let (status, ptr, storeInfo) ← findVariable mem platform request.variableName guid
      if status.isError then return onlyStatus status
      else do
        let (_, header) ← getVariableHeader mem storeInfo ptr
        let varDataSize := dataSizeOfVariable header storeInfo.authFlag
        return handOut request size varDataSize (attributes header)
          (getVariableNameOrData mem storeInfo (getVariableDataPtr ptr header storeInfo.authFlag)
            varDataSize)
  | _, _ => return onlyStatus .invalidParameter

end

end Edk2.Variable

/-!
## The merged image

What the two blocks hold together: the storage below `TargetAddress`, and the spare block from there
on. A store is valid if its variables follow one another in the merged image. `plainGetVariable`
looks a variable up in the list of variables of the image, from front to back.
-/

namespace Edk2.Variable

open Outcome

/-- The address at which the byte of the storage with address `a` is to be read. -/
def FtwLastWriteData.place (ftw : FtwLastWriteData) (a : ℕ) : ℕ :=
  if a < ftw.targetAddress then a else ftw.spareAddress + (a - ftw.targetAddress)

/-- The merged image. -/
def mergedImage (mem : Bytes) (ftw : FtwLastWriteData) : Bytes := fun a => mem (ftw.place a)

/-- The header at the address `a` of an image. -/
def headerAt (image : Bytes) (a : ℕ) : Bytes := fun i => image (a + i)

/-- The end of the variable at `a`. -/
def nextAt (image : Bytes) (authFlag : Bool) (a : ℕ) : ℕ :=
  variableEnd a (headerAt image a) authFlag

structure StoredVariable where
  state : ℕ
  attributes : ℕ
  guid : ℕ
  name : List UInt8
  data : List UInt8
deriving DecidableEq, Repr

/-- The variable at the address `a` of an image. -/
def variableAt (image : Bytes) (authFlag : Bool) (a : ℕ) : StoredVariable where
  state := state (headerAt image a)
  attributes := attributes (headerAt image a)
  guid := vendorGuid (headerAt image a) authFlag
  name := readBytes image (getVariableNamePtr a authFlag)
    (nameSizeOfVariable (headerAt image a) authFlag)
  data := readBytes image (getVariableDataPtr a (headerAt image a) authFlag)
    (dataSizeOfVariable (headerAt image a) authFlag)

/-! ### Plain lookup -/

/-- The variable is one of the given state, name and GUID. -/
def StoredVariable.isCopy (state : ℕ) (name : List UInt8) (guid : ℕ) (v : StoredVariable) : Bool :=
  v.state = state ∧ v.guid = guid ∧ v.name = name

/-- The first element that is added, or else the last one that is about to be deleted. -/
def pick {α : Type} (added deleted : α → Bool) (l : List α) : Option α :=
  match l.find? added with
  | some a => some a
  | none => (l.filter deleted).getLast?

/-- The copy of a variable that counts. -/
def lookup (vars : List StoredVariable) (name : List UInt8) (guid : ℕ) :
    Option StoredVariable :=
  pick (StoredVariable.isCopy varAdded name guid) (StoredVariable.isCopy varInDeletedAdded name guid)
    vars

/-- `PeiGetVariable` on a list of variables. -/
def plainGetVariable (vars : List StoredVariable) (request : GetRequest) (name : List UInt8) :
    GetAnswer :=
  match request.variableGuid, request.dataSize with
  | some guid, some size =>
    if request.variableName = 0 then onlyStatus .invalidParameter
    else if name = encode [] then onlyStatus .notFound
    else
      match lookup vars name guid with
      | some v => handOut request size v.data.length v.attributes v.data
      | none => onlyStatus .notFound
  | _, _ => onlyStatus .invalidParameter

lemma pick_map {α β : Type} (f : α → β) (added deleted : β → Bool) (l : List α) :
    pick added deleted (l.map f) = (pick (added ∘ f) (deleted ∘ f) l).map f := by
  simp only [pick, List.find?_map, List.filter_map, List.getLast?_map]
  cases l.find? (added ∘ f) <;> rfl

/-! ### Split stores -/

/-- The store header in the storage. -/
def Platform.storeHeader (mem : Bytes) (platform : Platform) : ℕ :=
  platform.nvStorageBase + word mem (platform.nvStorageBase + 48) 2

/-- What `GetVariableStore` returns for a storage that is split. -/
def splitInfo (mem : Bytes) (platform : Platform) (ftw : FtwLastWriteData) : VariableStoreInfo where
  variableStoreHeader := platform.storeHeader mem
  indexTable := true
  ftwLastWriteData := some ftw
  authFlag := decide (word mem (platform.storeHeader mem) 16 = gEfiAuthenticatedVariableGuid)

/-- The address of the variable with number `k`. -/
def position (mem : Bytes) (platform : Platform) (ftw : FtwLastWriteData) (k : ℕ) : ℕ :=
  (nextAt (mergedImage mem ftw) (splitInfo mem platform ftw).authFlag)^[k]
    (getStartPointer (platform.storeHeader mem))

/-- The end of the storage. -/
def Platform.nvStorageEnd (platform : Platform) : ℕ :=
  platform.nvStorageBase + platform.pcdFlashNvStorageVariableSize

/-- The variable with number `k`. -/
def variableNumber (mem : Bytes) (platform : Platform) (ftw : FtwLastWriteData) (k : ℕ) :
    StoredVariable :=
  variableAt (mergedImage mem ftw) (splitInfo mem platform ftw).authFlag
    (position mem platform ftw k)

/-- The header of the variable with number `k`. -/
def headerNumber (mem : Bytes) (platform : Platform) (ftw : FtwLastWriteData) (k : ℕ) : Bytes :=
  headerAt (mergedImage mem ftw) (position mem platform ftw k)

/-- A valid store of `n` variables that is split at `TargetAddress`. -/
structure SplitStore (mem : Bytes) (platform : Platform) (ftw : FtwLastWriteData) (n : ℕ) :
    Prop where
  emulated : platform.pcdEmuVariableNvModeEnable = false
  base : platform.nvStorageBase ≠ 0
  authHob : platform.authVariableHob = none
  hob : platform.variableHob = none
  ftwHob : platform.ftwHob = some ftw
  signature : word mem (platform.nvStorageBase + 40) 4 = efiFvhSignature
  fileSystem : word mem (platform.nvStorageBase + 16) 16 = gEfiSystemNvDataFvGuid
  status : getVariableStoreStatus mem (platform.storeHeader mem) = .efiValid
  size : word mem (platform.storeHeader mem + 16) 4 ≠ 2 ^ 32 - 1
  start : getStartPointer (platform.storeHeader mem) ≤ ftw.targetAddress
  target : ftw.targetAddress < platform.nvStorageEnd
  stop : getEndPointer mem (platform.storeHeader mem) ≤ platform.nvStorageEnd
  disjoint : ftw.spareAddress + (platform.nvStorageEnd - ftw.targetAddress) ≤
    platform.nvStorageBase ∨ platform.nvStorageEnd ≤ ftw.spareAddress
  bounded : ftw.spareAddress + (platform.nvStorageEnd - ftw.targetAddress) ≤ 2 ^ 64
  valid : ∀ k < n, isValidVariableHeader (headerNumber mem platform ftw k) = true ∧
    position mem platform ftw (k + 1) ≤ getEndPointer mem (platform.storeHeader mem)
  last : position mem platform ftw n ≤ getEndPointer mem (platform.storeHeader mem) ∧
    (position mem platform ftw n = getEndPointer mem (platform.storeHeader mem) ∨
      isValidVariableHeader (headerNumber mem platform ftw n) = false)
  names : ∀ k < n, isLive (headerNumber mem platform ftw k) = true →
    IsName (variableNumber mem platform ftw k).name

/-- The spare block lies above the storage, aligned like the part that it stands for, the first
variable starts before the split, and the store reaches into the spare block, or at least no further
header follows the store. -/
structure Benign (mem : Bytes) (platform : Platform) (ftw : FtwLastWriteData) : Prop where
  first : getStartPointer (platform.storeHeader mem) < ftw.targetAddress
  above : platform.nvStorageEnd ≤ ftw.spareAddress
  aligned : ftw.spareAddress % 4 = ftw.targetAddress % 4
  ended : ftw.targetAddress < getEndPointer mem (platform.storeHeader mem) ∨
    isValidVariableHeader (headerAt (mergedImage mem ftw)
      (getEndPointer mem (platform.storeHeader mem))) = false

/-- The caller passes `name`, in memory of its own. -/
structure Passes (mem : Bytes) (platform : Platform) (request : GetRequest) (name : List UInt8) :
    Prop where
  isName : IsName name
  bytes : readBytes mem request.variableName name.length = name
  apart : request.variableName + name.length ≤ platform.nvStorageBase ∨
    platform.nvStorageEnd ≤ request.variableName

/-- The name of a variable of the requested GUID does not start behind the split if the header
starts before it, and neither do the data of the requested variable; a name across the split is not
compared with a name that comes close to the split from below. -/
def GetRequest.Readable (mem : Bytes) (platform : Platform) (ftw : FtwLastWriteData) (n : ℕ)
    (name : List UInt8) (request : GetRequest) : Prop :=
  ∀ k < n, isLive (headerNumber mem platform ftw k) = true →
    position mem platform ftw k < ftw.targetAddress →
      request.variableGuid = some (variableNumber mem platform ftw k).guid →
        let authFlag := (splitInfo mem platform ftw).authFlag
        let namePtr := getVariableNamePtr (position mem platform ftw k) authFlag
        let dataPtr := getVariableDataPtr (position mem platform ftw k)
          (headerNumber mem platform ftw k) authFlag
        let nameSize := nameSizeOfVariable (headerNumber mem platform ftw k) authFlag
        let dataSize := dataSizeOfVariable (headerNumber mem platform ftw k) authFlag
        namePtr < ftw.targetAddress ∧
          (dataPtr ≤ ftw.targetAddress ∨ request.variableName + nameSize ≤ ftw.targetAddress ∨
            ftw.targetAddress ≤ request.variableName) ∧
          ((variableNumber mem platform ftw k).name = name →
            dataPtr < ftw.targetAddress ∨ dataSize = 0)

end Edk2.Variable
