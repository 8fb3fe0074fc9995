import Edk2.Base
import Edk2.Lib.Bytes
import Edk2.Lib.Outcome
import Edk2.Lib.Walk

/-!
# The fault tolerant write driver

The work space of the driver is a string of bytes: a header, and behind it the write headers with
their records. `FtwGetLastWriteHeader` and `FtwGetLastWriteRecord` find the place of the next write
in it. The services work on a copy in memory, which `WorkSpaceRefresh` reads from the flash, and
write what they change to the flash. A pointer into the copy is an offset.

The structures have their layout on a 64-bit machine: 32 bytes for the header of the work space and
40 bytes for a write header and for a record.
-/

namespace Edk2.Ftw

open Bytes

/-- The content of the work space. -/
abbrev Content := ℕ → UInt8

/-- `sizeof (EFI_FAULT_TOLERANT_WORKING_BLOCK_HEADER)`. -/
abbrev workingBlockHeaderSize : ℕ := 32

/-- `sizeof (EFI_FAULT_TOLERANT_WRITE_HEADER)`. -/
abbrev writeHeaderSize : ℕ := 40

/-- `sizeof (EFI_FAULT_TOLERANT_WRITE_RECORD)`. -/
abbrev writeRecordSize : ℕ := 40

abbrev ftwErasedByte : UInt8 := 255

/-- A state bit is `FTW_VALID_STATE`: flash bits are cleared to set a state. -/
def valid (state bit : UInt8) : Bool := state &&& bit = 0

/-- `HEADER_ALLOCATED`, `WRITES_ALLOCATED`, `WRITES_COMPLETED`. -/
abbrev headerAllocatedBit : UInt8 := 0x1
abbrev writesAllocatedBit : UInt8 := 0x2
abbrev writesCompletedBit : UInt8 := 0x4

/-- `BOOT_BLOCK_UPDATE`, `SPARE_COMPLETED`, `DEST_COMPLETED`. -/
abbrev bootBlockUpdateBit : UInt8 := 0x1
abbrev spareCompletedBit : UInt8 := 0x2
abbrev destCompletedBit : UInt8 := 0x4

/-- A number of 64 bits in the work space. -/
def uint64At (ws : Content) (offset : ℕ) : ℕ := fieldValue (bytesAt ws offset 8)

/-! ### Write headers -/

def headerAllocated (ws : Content) (header : ℕ) : Bool := valid (ws header) headerAllocatedBit
def writesAllocated (ws : Content) (header : ℕ) : Bool := valid (ws header) writesAllocatedBit
def complete (ws : Content) (header : ℕ) : Bool := valid (ws header) writesCompletedBit
def callerId (ws : Content) (header : ℕ) : List UInt8 := bytesAt ws (header + 4) 16
def numberOfWrites (ws : Content) (header : ℕ) : ℕ := uint64At ws (header + 24)
def privateDataSize (ws : Content) (header : ℕ) : ℕ := uint64At ws (header + 32)

/-! ### Records -/

def bootBlockUpdate (ws : Content) (record : ℕ) : Bool := valid (ws record) bootBlockUpdateBit
def spareComplete (ws : Content) (record : ℕ) : Bool := valid (ws record) spareCompletedBit
def destinationComplete (ws : Content) (record : ℕ) : Bool := valid (ws record) destCompletedBit
def recordLba (ws : Content) (record : ℕ) : ℕ := uint64At ws (record + 8)
def recordOffset (ws : Content) (record : ℕ) : ℕ := uint64At ws (record + 16)
def recordLength (ws : Content) (record : ℕ) : ℕ := uint64At ws (record + 24)

def ftwRecordSize (privateDataSize : ℕ) : ℕ := u64 (writeRecordSize + privateDataSize)

/-- The size of a write header with its records, as it is meant. -/
def totalSize (numberOfWrites privateDataSize : ℕ) : ℕ :=
  writeHeaderSize + numberOfWrites * (writeRecordSize + privateDataSize)

def ftwWriteTotalSize (numberOfWrites privateDataSize : ℕ) : ℕ :=
  u64 (totalSize numberOfWrites privateDataSize)

/-- `FTW_WRITE_TOTAL_SIZE` of a write header. -/
def headerTotalSize (ws : Content) (header : ℕ) : ℕ :=
  ftwWriteTotalSize (numberOfWrites ws header) (privateDataSize ws header)

/-! ### The search for the last write -/

/-- One turn of the loop of `FtwGetLastWriteHeader`: the next header, or the result. -/
def headerStep (size : ℕ) (ws : Content) (offset : ℕ) : Except Halt (ℕ ⊕ (EfiStatus × ℕ)) :=
  if size ≤ offset then .error .fault
  else if complete ws offset then
    if size < offset + writeHeaderSize then .error .fault
    else
      let next := u64 (offset + headerTotalSize ws offset)
      if next ≥ size then .ok (.inr (.aborted, offset)) else .ok (.inl next)
  else .ok (.inr (.success, offset))

/-- `FtwGetLastWriteHeader`. The headers it goes through lie in the work space, so if it makes
more steps than the work space has bytes it comes back to one of them and never ends. -/
def ftwGetLastWriteHeader (size : ℕ) (ws : Content) : Except Halt (EfiStatus × ℕ) :=
  Walk.walk (headerStep size ws) .loop (size + 1) workingBlockHeaderSize

/-- The loop of `FtwGetLastWriteRecord` over the records that are left. -/
def recordLoop (size : ℕ) (ws : Content) (privateDataSize : ℕ) :
    ℕ → ℕ → Except Halt (EfiStatus × ℕ)
  | 0, record => .ok (.success, sub64 record (ftwRecordSize privateDataSize))
  | left + 1, record =>
    if size < record + writeRecordSize then .error .fault
    else if destinationComplete ws record then
      recordLoop size ws privateDataSize left (u64 (record + writeRecordSize + privateDataSize))
    else .ok (.success, record)

def ftwGetLastWriteRecord (size : ℕ) (ws : Content) (header : ℕ) :
    Except Halt (EfiStatus × ℕ) :=
  if size < header + writeHeaderSize then .error .fault
  else recordLoop size ws (privateDataSize ws header) (numberOfWrites ws header)
    (header + writeHeaderSize)

/-- The last header, and then its last record. -/
def lastWrite (size : ℕ) (ws : Content) : Except Halt (EfiStatus × ℕ) :=
  match ftwGetLastWriteHeader size ws with
  | .error e => .error e
  | .ok (_, header) => ftwGetLastWriteRecord size ws header

end Edk2.Ftw

/-!
## The services of the fault tolerant write driver

The firmware volume block protocol of the work space reads and writes without errors; what a write
makes of bits that are not erased is left to the protocol. What the driver learns from elsewhere
(the block to write, the spare area, the allocation of buffers) is an argument of the services.
-/

namespace Edk2.Ftw

open Bytes

/-- The work space of a platform. -/
structure Config where
  /-- `FtwWorkSpaceSize`, from a 32-bit PCD. -/
  size : ℕ
  /-- There is room for a write header with a record. -/
  size_ge : workingBlockHeaderSize + writeHeaderSize + writeRecordSize ≤ size
  size_lt : size < 2 ^ 32
  /-- The CRC of the header of the work space. -/
  crc : ℕ
  /-- `gEfiCallerIdGuid`. -/
  callerIdGuid : BitVec 128
  /-- What the `Write` of the flash makes of a byte. -/
  program : UInt8 → UInt8 → UInt8

/-- A write that only clears bits stores the new value. -/
def Config.Sticky (cfg : Config) : Prop :=
  ∀ old new : UInt8, old &&& new = new → cfg.program old new = new

/-- `EFI_FTW_DEVICE`, with the work space in the flash. -/
structure FtwDevice where
  flash : Content
  ftwWorkSpace : Content
  ftwLastWriteHeader : ℕ
  ftwLastWriteRecord : ℕ

abbrev FtwM := EStateM Halt FtwDevice

variable (cfg : Config)

def ofExcept {α : Type} : Except Halt α → FtwM α
  | .error e => throw e
  | .ok a => pure a

/-! ### The flash -/

/-- `FVB.Write`. -/
def writeFlash (offset : ℕ) (bytes : List UInt8) (flash : Content) : Content :=
  writeBytes flash offset (List.zipWith cfg.program (bytesAt flash offset bytes.length) bytes)

/-- A bit of a state byte is set, in the polarity of the flash. -/
def setState (state newBit : UInt8) : UInt8 := ((state ^^^ 0xFF) ||| newBit) ^^^ 0xFF

/-- `FtwUpdateFvState`, in the work space. -/
def ftwUpdateFvState (offset : ℕ) (newBit : UInt8) : FtwM Unit :=
  modify fun s => { s with
    flash := writeFlash cfg offset [setState (s.flash offset) newBit] s.flash }

def readWorkSpaceData : FtwM Unit := modify fun s => { s with ftwWorkSpace := s.flash }

/-- `WriteWorkSpaceData`: bytes of the copy are written to the flash. -/
def writeWorkSpaceData (offset length source : ℕ) : FtwM Unit := do
  let s ← get
  if cfg.size < source + length ∨ cfg.size < offset + length then throw .fault
  set { s with flash := writeFlash cfg offset (bytesAt s.ftwWorkSpace source length) s.flash }

abbrev gEdkiiWorkingBlockSignatureGuid : ℕ := 0x951b9ffd0065cea0497d7c689e58292b

def mWorkingBlockHeader : List UInt8 :=
  field 16 gEdkiiWorkingBlockSignatureGuid ++ field 4 cfg.crc ++ [0xFE, 0xFF, 0xFF, 0xFF] ++
    field 8 (cfg.size - workingBlockHeaderSize)

def isValidWorkSpace (ws : Content) : Bool :=
  bytesAt ws 0 workingBlockHeaderSize = mWorkingBlockHeader cfg

def isErasedFlashBuffer (ws : Content) (offset length : ℕ) : Bool :=
  (bytesAt ws offset length).all (· = ftwErasedByte)

/-! ### `UpdateWorkingBlock.c` -/

/-- `FtwGetLastWriteHeader` on the device. -/
def refreshLastWriteHeader : FtwM EfiStatus := do
  let s ← get
  let (status, header) ← ofExcept (ftwGetLastWriteHeader cfg.size s.ftwWorkSpace)
  set { s with ftwLastWriteHeader := header }
  return status

/-- `FtwGetLastWriteRecord` on the device. -/
def refreshLastWriteRecord : FtwM EfiStatus := do
  let s ← get
  let (status, record) ← ofExcept (ftwGetLastWriteRecord cfg.size s.ftwWorkSpace
    s.ftwLastWriteHeader)
  set { s with ftwLastWriteRecord := record }
  return status

/-- The write that is not complete yet, which a reclaim keeps. -/
def preservedRecord : FtwM (List UInt8) := do
  let status ← refreshLastWriteHeader cfg
  let s ← get
  let header := s.ftwLastWriteHeader
  if status.isError ∨ complete s.ftwWorkSpace header ∨
      headerAllocated s.ftwWorkSpace header = false then
    return []
  let length := headerTotalSize s.ftwWorkSpace header
  if cfg.size < header + length then throw .fault
  return bytesAt s.ftwWorkSpace header length

/-- `FtwReclaimWorkSpace`. The new content goes over the spare block into the working block. -/
def ftwReclaimWorkSpace (preserveRecord : Bool) : FtwM EfiStatus := do
  let record ← if preserveRecord then preservedRecord cfg else pure []
  modify fun s => { s with
    ftwWorkSpace := writeBytes (writeBytes (fun _ => ftwErasedByte) 0
      (bytesAt s.ftwWorkSpace 0 workingBlockHeaderSize)) workingBlockHeaderSize record }
  let _ ← refreshLastWriteHeader cfg
  let _ ← refreshLastWriteRecord cfg
  modify fun s => { s with
    flash := writeBytes s.ftwWorkSpace 0 (mWorkingBlockHeader cfg)
    ftwWorkSpace := writeBytes s.ftwWorkSpace 20
      [(s.ftwWorkSpace 20 ||| 0x2) &&& 0xFE] }
  return .success

def workSpaceRefresh : FtwM EfiStatus := do
  readWorkSpaceData
  let status ← refreshLastWriteHeader cfg
  let s ← get
  if status.isError ∨
      cfg.size - s.ftwLastWriteHeader < writeHeaderSize + writeRecordSize then
    let reclaimed ← ftwReclaimWorkSpace cfg true
    if reclaimed.isError then return .aborted
    readWorkSpaceData
    let again ← refreshLastWriteHeader cfg
    if again.isError then return .aborted
    let last ← refreshLastWriteRecord cfg
    if last.isError then return .aborted
    return .success
  let last ← refreshLastWriteRecord cfg
  if last.isError then return .aborted
  return .success

/-! ### `FaultTolerantWrite.c` -/

/-- The write header that `FtwAllocate` prepares in the copy. -/
def preparedHeader (ws : Content) (header : ℕ) (guid : BitVec 128)
    (privateDataSize numberOfWrites : ℕ) : Content :=
  writeBytes (writeBytes (writeBytes (writeBytes ws header
    [(ws header ||| writesAllocatedBit ||| writesCompletedBit) &&& 0xFE])
    (header + 4) (field 16 guid.toNat))
    (header + 24) (field 8 numberOfWrites))
    (header + 32) (field 8 privateDataSize)

/-- `FtwAllocate` behind its checks, at the offset that it has computed. -/
def allocateAt (guid : BitVec 128) (privateDataSize numberOfWrites offset : ℕ) :
    FtwM EfiStatus := do
  let s ← get
  let header := s.ftwLastWriteHeader
  set { s with
    ftwWorkSpace := preparedHeader s.ftwWorkSpace header guid privateDataSize numberOfWrites }
  writeWorkSpaceData cfg offset writeHeaderSize header
  ftwUpdateFvState cfg offset writesAllocatedBit
  return .success

def ftwAllocate (guid : BitVec 128) (privateDataSize numberOfWrites : ℕ) : FtwM EfiStatus := do
  let status ← workSpaceRefresh cfg
  if status.isError then return .aborted
  let s ← get
  let header := s.ftwLastWriteHeader
  if ftwWriteTotalSize numberOfWrites privateDataSize > uint64At s.ftwWorkSpace 24 then
    return .bufferTooSmall
  if headerAllocated s.ftwWorkSpace header ∨ writesAllocated s.ftwWorkSpace header then
    return .accessDenied
  if u64 (header + ftwWriteTotalSize numberOfWrites privateDataSize) > cfg.size then
    let reclaimed ← ftwReclaimWorkSpace cfg true
    if reclaimed.isError then return .aborted
    -- the header is looked up again, its offset is not
    allocateAt cfg guid privateDataSize numberOfWrites header
  else allocateAt cfg guid privateDataSize numberOfWrites header

def ftwAbort : FtwM EfiStatus := do
  let status ← workSpaceRefresh cfg
  if status.isError then return .aborted
  let s ← get
  let header := s.ftwLastWriteHeader
  if headerAllocated s.ftwWorkSpace header = false then return .notFound
  if complete s.ftwWorkSpace header then return .notFound
  ftwUpdateFvState cfg header writesCompletedBit
  modify fun s => { s with
    ftwWorkSpace := writeBytes s.ftwWorkSpace header [s.ftwWorkSpace header &&& 0xFB] }
  return .success

/-- The block that a write goes to. -/
inductive Target
  /-- A block of the working block; `spare` is what the spare block holds for the work space. -/
  | workingBlock (spare : Content)
  /-- Any other block, and whether the spare block was flushed to it. -/
  | other (flushed : Bool)

/-- The spare block is flushed to the target. -/
def flushSpareBlock : Target → FtwM EfiStatus
  | .workingBlock spare => do
    modify fun s => { s with flash := writeBytes spare 0 (mWorkingBlockHeader cfg) }
    return .success
  | .other flushed => return if flushed then .success else .aborted

def isLastRecordOfWrites (ws : Content) (header record : ℕ) : Bool :=
  record = u64 (header + ftwWriteTotalSize (sub64 (numberOfWrites ws header) 1)
    (privateDataSize ws header))

def ftwWriteRecord (target : Target) (header record : ℕ) : FtwM EfiStatus := do
  let flushed ← flushSpareBlock cfg target
  if flushed.isError then return .aborted
  ftwUpdateFvState cfg record destCompletedBit
  modify fun s => { s with
    ftwWorkSpace := writeBytes s.ftwWorkSpace record [s.ftwWorkSpace record &&& 0xFB] }
  let s ← get
  if isLastRecordOfWrites s.ftwWorkSpace header record then
    ftwUpdateFvState cfg header writesCompletedBit
    modify fun s => { s with
      ftwWorkSpace := writeBytes s.ftwWorkSpace header [s.ftwWorkSpace header &&& 0xFB] }
    return .success
  return .success

/-- What `FtwWrite` is called with, and what it learns about its target. -/
structure WriteRequest where
  lba : ℕ
  offset : ℕ
  length : ℕ
  privateData : Option Content
  /-- `FtwGetFvbByHandle`, `GetPhysicalAddress`, `GetBlockSize` and the check of the spare area. -/
  blockStatus : EfiStatus
  relativeOffset : ℕ
  bootBlock : Bool
  /-- The status of the copy into the spare block. -/
  backupStatus : EfiStatus
  target : Target
  /-- The status of the restoration of the spare block. -/
  restoreStatus : EfiStatus

/-- The record that `FtwWrite` prepares in the copy. -/
def preparedRecord (ws : Content) (record : ℕ) (r : WriteRequest) (privateData : List UInt8) :
    Content :=
  writeBytes (writeBytes (writeBytes (writeBytes (writeBytes (writeBytes ws record
    [if r.bootBlock then ws record &&& 0xFE else ws record])
    (record + 8) (field 8 r.lba)) (record + 16) (field 8 r.offset))
    (record + 24) (field 8 r.length)) (record + 32) (field 8 r.relativeOffset))
    (record + writeRecordSize) privateData

/-- `FtwWrite` behind its checks of the last write. -/
def writeAt (r : WriteRequest) (header record : ℕ) : FtwM EfiStatus := do
  if r.blockStatus.isError then return r.blockStatus
  let s ← get
  let size := privateDataSize s.ftwWorkSpace header
  if cfg.size < record + (writeRecordSize + size) then throw .fault
  let privateData := match r.privateData with
    | none => []
    | some content => bytesAt content 0 size
  set { s with ftwWorkSpace := preparedRecord s.ftwWorkSpace record r privateData }
  writeWorkSpaceData cfg record (ftwRecordSize size) record
  if r.backupStatus.isError then return r.backupStatus
  ftwUpdateFvState cfg record spareCompletedBit
  modify fun s => { s with
    ftwWorkSpace := writeBytes s.ftwWorkSpace record [s.ftwWorkSpace record &&& 0xFD] }
  let status ← ftwWriteRecord cfg r.target header record
  if status.isError then return .aborted
  return r.restoreStatus

/-- The checks of `FtwWrite` on the last write. -/
def checkLastWrite (header record : ℕ) : FtwM EfiStatus := do
  let s ← get
  let ws := s.ftwWorkSpace
  if sub64 record header >
      ftwWriteTotalSize (sub64 (numberOfWrites ws header) 1) (privateDataSize ws header) then
    return .accessDenied
  if complete ws header then return .accessDenied
  if cfg.size < record + writeRecordSize then throw .fault
  if destinationComplete ws record then return .accessDenied
  if spareComplete ws record then return .notReady
  return .success

/-- A write without an allocation before it makes one, if it has no private data. -/
def allocateForWrite (r : WriteRequest) (header : ℕ) : FtwM EfiStatus := do
  let s ← get
  if isErasedFlashBuffer s.ftwWorkSpace header writeHeaderSize then
    match r.privateData with
    | none => ftwAllocate cfg cfg.callerIdGuid 0 1
    | some _ => return .notReady
  else return .success

def ftwWrite (r : WriteRequest) : FtwM EfiStatus := do
  let status ← workSpaceRefresh cfg
  if status.isError then return .aborted
  let s ← get
  let header := s.ftwLastWriteHeader
  let record := s.ftwLastWriteRecord
  let allocated ← allocateForWrite cfg r header
  if allocated.isError then return allocated
  let checked ← checkLastWrite cfg header record
  if checked.isError then return checked
  writeAt cfg r header record

/-- `FtwRestart`; `blockStatus` is that of the handle and of `GetBlockSize`, `eraseStatus` that of
`FtwEraseSpareBlock`. -/
def ftwRestart (blockStatus : EfiStatus) (target : Target) (eraseStatus : EfiStatus) :
    FtwM EfiStatus := do
  let status ← workSpaceRefresh cfg
  if status.isError then return .aborted
  let s ← get
  let header := s.ftwLastWriteHeader
  let record := s.ftwLastWriteRecord
  if blockStatus.isError then return blockStatus
  if complete s.ftwWorkSpace header then return .accessDenied
  if cfg.size < record + writeRecordSize then throw .fault
  if destinationComplete s.ftwWorkSpace record then return .accessDenied
  if spareComplete s.ftwWorkSpace record = false then return .aborted
  let written ← ftwWriteRecord cfg target header record
  if written.isError then return .aborted
  return eraseStatus

/-- What `FtwGetLastWrite` returns. -/
structure LastWrite where
  callerId : List UInt8
  lba : ℕ
  offset : ℕ
  length : ℕ
  privateDataSize : ℕ
  privateData : List UInt8
  complete : Bool

def isFirstRecordOfWrites (header record : ℕ) : Bool := record = header + writeHeaderSize

/-- What `FtwGetLastWrite` fills in from a record. -/
def lastWriteOf (ws : Content) (header record privateDataRoom : ℕ) : EfiStatus × LastWrite :=
  let size := privateDataSize ws header
  (if privateDataRoom < size then .bufferTooSmall else .success,
    { callerId := callerId ws header
      lba := recordLba ws record
      offset := recordOffset ws record
      length := recordLength ws record
      privateDataSize := size
      privateData :=
        if privateDataRoom < size then [] else bytesAt ws (record + writeRecordSize) size
      complete := destinationComplete ws record })

/-- `FtwGetLastWrite`; it is complete, with nothing else filled in, where the result is `none`. -/
def ftwGetLastWrite (privateDataRoom : ℕ) : FtwM (EfiStatus × Option LastWrite) := do
  let status ← workSpaceRefresh cfg
  if status.isError then return (.aborted, none)
  let s ← get
  let ws := s.ftwWorkSpace
  let header := s.ftwLastWriteHeader
  let record := s.ftwLastWriteRecord
  if cfg.size < record + writeRecordSize then throw .fault
  if complete ws header = false ∧ destinationComplete ws record ∧
      isLastRecordOfWrites ws header record then
    let _ ← ftwAbort cfg
    return (.notFound, none)
  if headerAllocated ws header = false then return (.notFound, none)
  if spareComplete ws record then
    let (status, last) := lastWriteOf ws header record privateDataRoom
    return (status, some last)
  if isFirstRecordOfWrites header record then
    let _ ← ftwAbort cfg
    return (.notFound, none)
  let (status, last) := lastWriteOf ws header
    (sub64 record (ftwRecordSize (privateDataSize ws header))) privateDataRoom
  return (status, some last)

/-! ### `InitFtwProtocol` -/

/-- What `InitFtwProtocol` finds besides the work space. -/
structure InitRequest where
  /-- What the spare block holds for the work space. -/
  spare : Content
  /-- The status of `FlushSpareBlockToBootBlock`. -/
  bootStatus : EfiStatus
  /-- The block of the last record, for `FtwRestart`: its status, the target, and the status of the
  erasure of the spare block. -/
  block : Option (EfiStatus × Target × EfiStatus)

/-- `ASSERT_EFI_ERROR`. -/
def assertSuccess (status : EfiStatus) : FtwM Unit :=
  if status.isError then throw .assert else pure ()

/-- The work space is not valid: it comes from the spare block, or it is a new one. -/
def recoverWorkSpace (spare : Content) : FtwM Unit := do
  modify fun s => { s with ftwWorkSpace := spare }
  if isValidWorkSpace cfg spare then
    let _ ← flushSpareBlock cfg (.workingBlock spare)
    let _ ← ftwAbort cfg
    assertSuccess (← workSpaceRefresh cfg)
  else
    modify fun s => { s with
      ftwWorkSpace := writeBytes (fun _ => ftwErasedByte) 0 (mWorkingBlockHeader cfg) }
    assertSuccess (← ftwReclaimWorkSpace cfg false)

/-- A write that did not get to its spare block is aborted. -/
def abortFirstRecord : FtwM Unit := do
  let s ← get
  let ws := s.ftwWorkSpace
  if headerAllocated ws s.ftwLastWriteHeader ∧ spareComplete ws s.ftwLastWriteRecord = false ∧
      isFirstRecordOfWrites s.ftwLastWriteHeader s.ftwLastWriteRecord then
    let _ ← ftwAbort cfg
    return ()

/-- A write with all its records complete is completed. -/
def abortLastRecord : FtwM Unit := do
  let s ← get
  let ws := s.ftwWorkSpace
  if complete ws s.ftwLastWriteHeader = false ∧ destinationComplete ws s.ftwLastWriteRecord ∧
      isLastRecordOfWrites ws s.ftwLastWriteHeader s.ftwLastWriteRecord then
    let _ ← ftwAbort cfg
    return ()

/-- A work space that is not empty behind its last write is reclaimed. -/
def reclaimGarbage : FtwM Unit := do
  let s ← get
  let ws := s.ftwWorkSpace
  let header := s.ftwLastWriteHeader
  let offset :=
    if ws header ≠ ftwErasedByte then u64 (header + headerTotalSize ws header) else header
  if cfg.size < offset then throw .fault
  if isErasedFlashBuffer ws offset (cfg.size - offset) = false then
    assertSuccess (← ftwReclaimWorkSpace cfg true)

/-- A write that got to its spare block is restarted. -/
def restartUnfinished (r : InitRequest) : FtwM Unit := do
  let s ← get
  let ws := s.ftwWorkSpace
  if complete ws s.ftwLastWriteHeader = false ∧ spareComplete ws s.ftwLastWriteRecord then
    if bootBlockUpdate ws s.ftwLastWriteRecord then
      assertSuccess r.bootStatus
      let _ ← ftwAbort cfg
      return ()
    match r.block with
    | none => pure ()
    | some (blockStatus, target, eraseStatus) =>
      assertSuccess (← ftwRestart cfg blockStatus target eraseStatus)
    let _ ← ftwAbort cfg
    return ()

/-- `InitFtwProtocol`, behind the search for the block protocol. -/
def initFtwProtocol (r : InitRequest) : FtwM EfiStatus := do
  assertSuccess (← workSpaceRefresh cfg)
  let s ← get
  if isValidWorkSpace cfg s.ftwWorkSpace = false then recoverWorkSpace cfg r.spare
  abortFirstRecord cfg
  abortLastRecord cfg
  reclaimGarbage cfg
  restartUnfinished cfg r
  return .success

end Edk2.Ftw
