import Edk2.LockBox.Run

/-!
# The table of the S3 boot script

`PiDxeS3BootScriptLib/BootScriptSave.c`. A driver calls the library to append records to the table,
to move the last record and to set labels. Until `SmmReadyToLock` the table grows as it has to;
after it, only drivers in SMM may add records, in the pages that were reserved, and every change
goes to a LockBox too. The model is the library of a driver in SMM: all drivers share the private
data, and those outside of SMM are refused after `SmmReadyToLock` before they change anything.

There is no result if an `ASSERT` fails or a loop does not end.
-/

namespace Edk2.BootScript

open Bytes LockBox

/-- The result of `UINT16` arithmetic. -/
def u16 (n : ℕ) : ℕ := n % 2 ^ 16

/-! ### The state -/

structure ScriptTablePrivateData where
  tableBase : ℕ
  tableLength : ℕ
  tableMemoryPageNumber : ℕ
  inSmm : Bool
  atRuntime : Bool
  bootTimeScriptLength : ℕ
  smmLocked : Bool
  backFromS3 : Bool
deriving DecidableEq, Repr

/-- A LockBox: the address that it was saved from, and its bytes. -/
structure Box where
  buffer : ℕ
  bytes : List Byte
deriving DecidableEq, Repr

structure State where
  memory : ℕ → Byte
  /-- What `mS3BootScriptTablePtr` points to. -/
  ptr : ScriptTablePrivateData
  /-- What `AllocatePages` answers to the calls to come. -/
  answers : ℕ → Option ℕ
  /-- `mBootScriptDataGuid`. -/
  dataBox : Option Box
  /-- `mBootScriptDataBootTimeGuid`. -/
  bootTimeBox : Option (List Byte)
  /-- `mBootScriptSmmPrivateDataGuid`. -/
  smmPrivateBox : Option ScriptTablePrivateData

def State.initial (memory : ℕ → Byte) (answers : ℕ → Option ℕ) : State where
  memory := memory
  ptr := ⟨0, 0, 0, false, false, 0, false, false⟩
  answers := answers
  dataBox := none
  bootTimeBox := none
  smmPrivateBox := none

/-- The answer of `AllocatePages` is used up. -/
def State.next (s : State) : State := { s with answers := fun n => s.answers (n + 1) }

def State.write (s : State) (address : ℕ) (bytes : List Byte) : State :=
  { s with memory := writeBytes s.memory address bytes }

/-- `sizeof (EFI_BOOT_SCRIPT_TABLE_HEADER)`, `sizeof (EFI_BOOT_SCRIPT_TERMINATE)`. -/
abbrev headerSize : ℕ := 13
abbrev terminateSize : ℕ := 3

/-- `EFI_BOOT_SCRIPT_TERMINATE`. -/
def scriptTerminate : List Byte := [0xFF, 0x00, 0x03]

def s3BootScriptInternalCloseTable (s : State) : State :=
  if s.ptr.tableBase = 0 then s
  else
    (s.write (s.ptr.tableBase + s.ptr.tableLength) scriptTerminate).write (s.ptr.tableBase + 5)
      (field 4 (s.ptr.tableLength + terminateSize))

/-! ### LockBoxes -/

/-- `UpdateLockBox`, for a box that is restored in place. -/
def updateLockBox (box : Option Box) (offset : ℕ) (bytes : List Byte) : Option Box := do
  let box ← box
  if bytes = [] ∨ box.bytes.length < offset + bytes.length then none
  else some { box with bytes := patch box.bytes offset bytes }

def restoreBootTimeDataFromLockBox (s : State) : Option State := do
  let box ← s.bootTimeBox
  if s.ptr.bootTimeScriptLength < box.length then none
  else do
    let s := s.write s.ptr.tableBase box
    let dataBox ← updateLockBox s.dataBox 0 (bytesAt s.memory s.ptr.tableBase box.length)
    some { s with
      dataBox := some dataBox
      ptr := { s.ptr with tableLength := sub32 s.ptr.bootTimeScriptLength terminateSize } }

def syncBootScript (s : State) (script : ℕ) : Option State :=
  if !s.ptr.smmLocked || !s.ptr.inSmm then some s
  else do
    let scriptOffset := u32 (script - s.ptr.tableBase)
    let totalScriptLength := u32 (s.ptr.tableLength + terminateSize)
    let dataBox ← updateLockBox s.dataBox scriptOffset
      (bytesAt s.memory (s.ptr.tableBase + scriptOffset) (sub32 totalScriptLength scriptOffset))
    let dataBox ← updateLockBox dataBox 5 (field 4 totalScriptLength)
    some { s with dataBox := some dataBox }

/-! ### Where a new entry goes -/

/-- The table is created, if there is none. -/
def createTable (reserve : ℕ) (s : State) : EfiStatus × State :=
  if s.ptr.tableBase = 0 then
    match s.answers 0 with
    | none => (.outOfResources, s.next)
    | some base =>
      let s := s.next.write base ([0xAA, 0x00, 0x0D, 0x01, 0x00] ++ field 4 0)
      (.success, { s with
        ptr := { s.ptr with
          tableLength := headerSize
          tableBase := base
          tableMemoryPageNumber := u16 (2 + reserve) } })
  else (.success, s)

/-- The table gets two more pages, if it is too small. -/
def growTable (reserve : ℕ) (s : State) (entryLength : ℕ) : EfiStatus × State :=
  let pageNumber := u16 (s.ptr.tableMemoryPageNumber + (2 ^ 16 - reserve))
  if pageNumber * 4096 < s.ptr.tableLength + entryLength + terminateSize then
    match s.answers 0 with
    | none => (.outOfResources, s.next)
    | some base =>
      let s := s.next.write base (bytesAt s.memory s.ptr.tableBase s.ptr.tableLength)
      (.success, { s with
        ptr := { s.ptr with
          tableBase := base
          tableMemoryPageNumber := u16 (2 + pageNumber + reserve) } })
  else (.success, s)

/-- `S3BootScriptGetBootTimeEntryAddAddress`; `reserve` is
`PcdS3BootScriptRuntimeTableReservePageNumber`. -/
def s3BootScriptGetBootTimeEntryAddAddress (reserve : ℕ) (s : State) (entryLength : ℕ) :
    Option ℕ × State :=
  let (status, s) := createTable reserve s
  if status.isError then (none, s)
  else
    let (status, s) := growTable reserve s entryLength
    if status.isError then (none, s)
    else
      (some (s.ptr.tableBase + s.ptr.tableLength), { s with
        ptr := { s.ptr with tableLength := u32 (s.ptr.tableLength + entryLength) } })

def s3BootScriptGetRuntimeEntryAddAddress (s : State) (entryLength : ℕ) : Option ℕ × State :=
  if s.ptr.tableLength + entryLength + terminateSize ≤ s.ptr.tableMemoryPageNumber * 4096 then
    (some (s.ptr.tableBase + s.ptr.tableLength), s3BootScriptInternalCloseTable { s with
      ptr := { s.ptr with tableLength := u32 (s.ptr.tableLength + entryLength) } })
  else (none, s)

def s3BootScriptGetEntryAddAddress (reserve : ℕ) (s : State) (entryLength : ℕ) :
    Option (Option ℕ × State) :=
  if s.ptr.smmLocked then
    if !s.ptr.inSmm then some (none, s)
    else if s.ptr.backFromS3 then do
      let s ← restoreBootTimeDataFromLockBox s
      some (s3BootScriptGetRuntimeEntryAddAddress
        { s with ptr := { s.ptr with backFromS3 := false } } entryLength)
    else some (s3BootScriptGetRuntimeEntryAddAddress s entryLength)
  else some (s3BootScriptGetBootTimeEntryAddAddress reserve s entryLength)

/-! ### Saving -/

/-- What a call of the library wants to save. -/
structure Entry where
  opCode : ℕ
  /-- The fields of the record behind `Length`. -/
  fields : List Byte
  /-- What is copied behind the record. -/
  payload : List Byte
deriving DecidableEq, Repr

/-- The bytes that are written for an entry. -/
def Entry.size (e : Entry) : ℕ := 3 + e.fields.length + e.payload.length

/-- `Length`, a `UINT8`. -/
def Entry.length (e : Entry) : ℕ := e.size % 256

def Entry.bytes (e : Entry) : List Byte :=
  field 2 e.opCode ++ UInt8.ofNat e.length :: e.fields ++ e.payload

/-- An entry is appended. -/
def saveEntry (reserve : ℕ) (s : State) (e : Entry) : Option (EfiStatus × State) := do
  let (script, s) ← s3BootScriptGetEntryAddAddress reserve s e.length
  match script with
  | none => some (.outOfResources, s)
  | some script =>
    let s ← syncBootScript (s.write script e.bytes) script
    some (.success, s)

/-- What a call saves, or why it refuses its arguments. -/
abbrev Request := Except EfiStatus Entry

def widthInByte (width : ℕ) : ℕ := 2 ^ (width % 4)

def s3BootScriptSaveIoWrite (width address count : ℕ) (buffer : ℕ → Byte) : Request :=
  .ok ⟨0x00, field 4 width ++ field 4 count ++ field 8 address,
    bytesAt buffer 0 (u64 (widthInByte width * count))⟩

def s3BootScriptSaveIoReadWrite (width address : ℕ) (data dataMask : ℕ → Byte) : Request :=
  .ok ⟨0x01, field 4 width ++ field 8 address,
    bytesAt data 0 (widthInByte width) ++ bytesAt dataMask 0 (widthInByte width)⟩

def s3BootScriptSaveMemWrite (width address count : ℕ) (buffer : ℕ → Byte) : Request :=
  .ok ⟨0x02, field 4 width ++ field 4 count ++ field 8 address,
    bytesAt buffer 0 (u64 (widthInByte width * count))⟩

def s3BootScriptSaveMemReadWrite (width address : ℕ) (data dataMask : ℕ → Byte) : Request :=
  .ok ⟨0x03, field 4 width ++ field 8 address,
    bytesAt data 0 (widthInByte width) ++ bytesAt dataMask 0 (widthInByte width)⟩

/-- 64-bit widths are refused. -/
def pciRequest (width : ℕ) (e : Entry) : Request :=
  if width = 3 ∨ width = 7 ∨ width = 11 then .error .invalidParameter else .ok e

def s3BootScriptSavePciCfgWrite (width address count : ℕ) (buffer : ℕ → Byte) : Request :=
  pciRequest width ⟨0x04, field 4 width ++ field 4 count ++ field 8 address,
    bytesAt buffer 0 (u64 (widthInByte width * count))⟩

def s3BootScriptSavePciCfgReadWrite (width address : ℕ) (data dataMask : ℕ → Byte) : Request :=
  pciRequest width ⟨0x05, field 4 width ++ field 8 address,
    bytesAt data 0 (widthInByte width) ++ bytesAt dataMask 0 (widthInByte width)⟩

def s3BootScriptSavePciCfg2Write (width segment address count : ℕ) (buffer : ℕ → Byte) : Request :=
  pciRequest width ⟨0x0B, field 4 width ++ field 4 count ++ field 8 address ++ field 2 segment,
    bytesAt buffer 0 (u64 (widthInByte width * count))⟩

def s3BootScriptSavePciCfg2ReadWrite (width segment address : ℕ) (data dataMask : ℕ → Byte) :
    Request :=
  pciRequest width ⟨0x0C, field 4 width ++ field 8 address ++ field 2 segment,
    bytesAt data 0 (widthInByte width) ++ bytesAt dataMask 0 (widthInByte width)⟩

/-- `EFI_SMBUS_OPERATION`. -/
inductive SmbusOperation
  | quickRead
  | quickWrite
  | receiveByte
  | sendByte
  | readByte
  | writeByte
  | readWord
  | writeWord
  | readBlock
  | writeBlock
  | processCall
  | bwbrProcessCall
deriving DecidableEq, Repr

def SmbusOperation.code : SmbusOperation → ℕ
  | quickRead => 0
  | quickWrite => 1
  | receiveByte => 2
  | sendByte => 3
  | readByte => 4
  | writeByte => 5
  | readWord => 6
  | writeWord => 7
  | readBlock => 8
  | writeBlock => 9
  | processCall => 10
  | bwbrProcessCall => 11

/-- The length check that the operations on bytes and words share. -/
def checkLength (requiredLen length : ℕ) (buffer : Bool) : Except EfiStatus ℕ :=
  if !buffer then .error .invalidParameter
  else if length < requiredLen then .error .bufferTooSmall
  else .ok requiredLen

/-- `CheckParameters`, with `*Length` afterwards; `buffer` says that there is one. -/
def checkParameters (smBusAddress : ℕ) (operation : SmbusOperation) (length : ℕ) (buffer : Bool) :
    Except EfiStatus ℕ :=
  let command := smBusAddress / 2 ^ 8 % 2 ^ 8
  let pecCheck := smBusAddress.testBit 22
  match operation with
  | .quickRead | .quickWrite =>
    if pecCheck ∨ command ≠ 0 then .error .unsupported else .ok length
  | .receiveByte | .sendByte =>
    if command ≠ 0 then .error .unsupported else checkLength 1 length buffer
  | .readByte | .writeByte => checkLength 1 length buffer
  | .readWord | .writeWord | .processCall => checkLength 2 length buffer
  | .readBlock | .writeBlock | .bwbrProcessCall =>
    if !buffer ∨ length < 1 ∨ 32 < length then .error .invalidParameter else .ok length

def s3BootScriptSaveSmbusExecute (smBusAddress : ℕ) (operation : SmbusOperation)
    (length : Option ℕ) (buffer : Option (ℕ → Byte)) : Request := do
  let bufferLength ← checkParameters smBusAddress operation (length.getD 0) buffer.isSome
  .ok ⟨0x06, field 8 smBusAddress ++ field 4 operation.code ++ field 4 bufferLength,
    bytesAt (buffer.getD fun _ => 0) 0 bufferLength⟩

def s3BootScriptSaveStall (duration : ℕ) : Request := .ok ⟨0x07, field 8 duration, []⟩

def s3BootScriptSaveDispatch2 (entryPoint context : ℕ) : Request :=
  .ok ⟨0x09, field 8 entryPoint ++ field 8 context, []⟩

def s3BootScriptSaveMemPoll (width address : ℕ) (bitMask bitValue : ℕ → Byte)
    (duration loopTimes : ℕ) : Request :=
  .ok ⟨0x0E, field 4 width ++ field 8 address ++ field 8 duration ++ field 8 loopTimes,
    bytesAt bitValue 0 (widthInByte width) ++ bytesAt bitMask 0 (widthInByte width)⟩

def s3BootScriptSaveInformation (informationLength : ℕ) (information : ℕ → Byte) : Request :=
  .ok ⟨0x0A, field 4 informationLength, bytesAt information 0 informationLength⟩

def s3BootScriptSaveDispatch (entryPoint : ℕ) : Request := .ok ⟨0x08, field 8 entryPoint, []⟩

def s3BootScriptSaveIoPoll (width address : ℕ) (data dataMask : ℕ → Byte) (delay : ℕ) : Request :=
  .ok ⟨0x0D, field 4 width ++ field 8 address ++ field 8 delay,
    bytesAt data 0 (widthInByte width) ++ bytesAt dataMask 0 (widthInByte width)⟩

def s3BootScriptSavePciPoll (width address : ℕ) (data dataMask : ℕ → Byte) (delay : ℕ) : Request :=
  pciRequest width ⟨0x0F, field 4 width ++ field 8 address ++ field 8 delay,
    bytesAt data 0 (widthInByte width) ++ bytesAt dataMask 0 (widthInByte width)⟩

def s3BootScriptSavePci2Poll (width segment address : ℕ) (data dataMask : ℕ → Byte) (delay : ℕ) :
    Request :=
  pciRequest width ⟨0x10, field 4 width ++ field 8 address ++ field 2 segment ++ field 8 delay,
    bytesAt data 0 (widthInByte width) ++ bytesAt dataMask 0 (widthInByte width)⟩

/-- The requests of the `S3BootScriptSave` functions. -/
inductive SaveRequest : Request → Prop
  | ioWrite (w a c b) : SaveRequest (s3BootScriptSaveIoWrite w a c b)
  | ioReadWrite (w a d m) : SaveRequest (s3BootScriptSaveIoReadWrite w a d m)
  | memWrite (w a c b) : SaveRequest (s3BootScriptSaveMemWrite w a c b)
  | memReadWrite (w a d m) : SaveRequest (s3BootScriptSaveMemReadWrite w a d m)
  | pciCfgWrite (w a c b) : SaveRequest (s3BootScriptSavePciCfgWrite w a c b)
  | pciCfgReadWrite (w a d m) : SaveRequest (s3BootScriptSavePciCfgReadWrite w a d m)
  | pciCfg2Write (w g a c b) : SaveRequest (s3BootScriptSavePciCfg2Write w g a c b)
  | pciCfg2ReadWrite (w g a d m) : SaveRequest (s3BootScriptSavePciCfg2ReadWrite w g a d m)
  | smbusExecute (a o l b) : SaveRequest (s3BootScriptSaveSmbusExecute a o l b)
  | stall (d) : SaveRequest (s3BootScriptSaveStall d)
  | dispatch2 (e c) : SaveRequest (s3BootScriptSaveDispatch2 e c)
  | memPoll (w a m v d l) : SaveRequest (s3BootScriptSaveMemPoll w a m v d l)
  | information (l i) : SaveRequest (s3BootScriptSaveInformation l i)
  | dispatch (e) : SaveRequest (s3BootScriptSaveDispatch e)
  | ioPoll (w a d m t) : SaveRequest (s3BootScriptSaveIoPoll w a d m t)
  | pciPoll (w a d m t) : SaveRequest (s3BootScriptSavePciPoll w a d m t)
  | pci2Poll (w g a d m t) : SaveRequest (s3BootScriptSavePci2Poll w g a d m t)

def saveRequest (reserve : ℕ) (s : State) (request : Request) : Option (EfiStatus × State) :=
  match request with
  | .error status => some (status, s)
  | .ok e => saveEntry reserve s e

/-! ### Moving -/

/-- The opcode and the length of the record at an address. -/
def opCodeAt (memory : ℕ → Byte) (script : ℕ) : ℕ :=
  (memory script).toNat + 256 * (memory (script + 1)).toNat

def lengthAt (memory : ℕ → Byte) (script : ℕ) : ℕ := (memory (script + 2)).toNat

/-- The loop of `S3BootScriptMoveLastOpcode`. Every turn takes it on by a byte at least, or it does
not end. -/
def findLastOpcode (memory : ℕ → Byte) (position stop : ℕ) :
    ℕ → ℕ → ℕ → Bool → Option (ℕ × Bool)
  | 0, script, lastOpcode, valid => if script < stop then none else some (lastOpcode, valid)
  | fuel + 1, script, lastOpcode, valid =>
    if script < stop then
      findLastOpcode memory position stop fuel (script + lengthAt memory script)
        (if opCodeAt memory script ≠ 0xFF then script else lastOpcode)
        (valid || (position ≠ 0 && position = script))
    else some (lastOpcode, valid)

def s3BootScriptCalculateInsertAddress (s : State) (entryLength position : ℕ) (before : Bool) :
    State × ℕ :=
  let tableLength := sub32 s.ptr.tableLength entryLength
  let base := s.ptr.tableBase
  let insert (offset : ℕ) : State × ℕ :=
    (s.write (base + offset + entryLength)
      (bytesAt s.memory (base + offset) (sub64 tableLength offset)), base + offset)
  if position ≠ 0 then
    insert (position - base + if before then 0 else lengthAt s.memory position)
  else if !before then (s, base + tableLength)
  else insert headerSize

/-- The last record is moved in a table that is there. -/
def moveLastOpcode (s : State) (before : Bool) (position : Option ℕ) :
    Option (EfiStatus × State × Option ℕ) := do
  let tempPosition := position.getD 0
  let base := s.ptr.tableBase
  let (lastOpcode, valid) ← findLastOpcode s.memory tempPosition (base + s.ptr.tableLength)
    s.ptr.tableLength (base + headerSize) (base + headerSize) false
  if tempPosition ≠ 0 ∧ !valid then some (.invalidParameter, s, position)
  else do
    let length := lengthAt s.memory lastOpcode
    let entry := bytesAt s.memory lastOpcode length
    let (s, script) := s3BootScriptCalculateInsertAddress s length tempPosition before
    let s ← syncBootScript (s.write script entry) script
    some (.success, s, position.map fun _ => script)

/-- `S3BootScriptMoveLastOpcode`, with `*Position` afterwards. -/
def s3BootScriptMoveLastOpcode (reserve : ℕ) (s : State) (before : Bool) (position : Option ℕ) :
    Option (EfiStatus × State × Option ℕ) := do
  let (script, s) ← s3BootScriptGetEntryAddAddress reserve s 0
  if script = none then some (.outOfResources, s, position)
  else moveLastOpcode s before position

/-! ### Labels -/

/-- A string of a caller, without the `NUL` behind it. -/
structure AsciiString where
  chars : List Byte
  noNul : 0 ∉ chars

/-- The entry of a label. -/
def labelEntry (label : AsciiString) : Entry :=
  ⟨0xFE, field 4 (label.chars.length + 1), label.chars ++ [0]⟩

def s3BootScriptLabelInternal (reserve : ℕ) (s : State) (before : Bool) (position : Option ℕ)
    (label : AsciiString) : Option (EfiStatus × State × Option ℕ) := do
  let (status, s) ← saveEntry reserve s (labelEntry label)
  if status.isError then some (status, s, position)
  else s3BootScriptMoveLastOpcode reserve s before position

/-- The loop of `S3BootScriptLabel`: the record of a label. -/
def findLabel (memory : ℕ → Byte) (label : AsciiString) (stop : ℕ) :
    ℕ → ℕ → Option (Option ℕ)
  | 0, script => if script < stop then none else some none
  | fuel + 1, script =>
    if script < stop then
      if opCodeAt memory script = 0xFE ∧
          bytesAt memory (script + 7) (label.chars.length + 1) = label.chars ++ [0] then
        some (some script)
      else findLabel memory label stop fuel (script + lengthAt memory script)
    else some none

/-- `S3BootScriptLabel`, with `*Position` afterwards. -/
def s3BootScriptLabel (reserve : ℕ) (s : State) (before createIfNotFound : Bool)
    (position : Option ℕ) (label : Option AsciiString) :
    Option (EfiStatus × State × Option ℕ) := do
  match label with
  | none => some (.invalidParameter, s, position)
  | some label =>
    if label.chars = [] then some (.invalidParameter, s, position)
    else do
      let (script, s) ← s3BootScriptGetEntryAddAddress reserve s 0
      if script = none then some (.outOfResources, s, position)
      else
        let base := s.ptr.tableBase
        if opCodeAt s.memory base ≠ 0xAA then some (.invalidParameter, s, position)
        else do
          let found ← findLabel s.memory label (base + s.ptr.tableLength) s.ptr.tableLength
            (base + lengthAt s.memory base)
          match found with
          | some script =>
            -- `*Position` is written without a check
            if position = none then none else some (.success, s, some script)
          | none =>
            if createIfNotFound then s3BootScriptLabelInternal reserve s before position label
            else some (.notFound, s, position)

/-! ### Transitions -/

def s3BootScriptEventCallBack (s : State) : Option State :=
  if s.ptr.smmLocked then some s
  else
    let s := s3BootScriptInternalCloseTable s
    let size := s.ptr.tableMemoryPageNumber * 4096
    if s.ptr.tableBase = 0 ∨ size = 0 ∨ s.dataBox.isSome then none
    else
      some { s with
        ptr := { s.ptr with smmLocked := true }
        dataBox := some ⟨s.ptr.tableBase, bytesAt s.memory s.ptr.tableBase size⟩ }

def s3BootScriptSmmEventCallBack (s : State) : Option State := do
  let s ← s3BootScriptEventCallBack s
  some { s with ptr := { s.ptr with inSmm := true } }

def s3BootScriptSmmAtRuntimeCallBack (s : State) : Option State :=
  if s.ptr.atRuntime then some s
  else do
    let length := u32 (s.ptr.tableLength + terminateSize)
    let box ← s.dataBox
    let s := s.write box.buffer box.bytes
    if s.ptr.tableBase = 0 ∨ length = 0 ∨ s.bootTimeBox.isSome ∨ s.smmPrivateBox.isSome then none
    else
      let ptr := { s.ptr with bootTimeScriptLength := length, atRuntime := true }
      some { s with
        ptr := { ptr with backFromS3 := false }
        bootTimeBox := some (bytesAt s.memory s.ptr.tableBase length)
        smmPrivateBox := some { ptr with backFromS3 := true } }

/-- A resume from S3 restores what is restored in place. -/
def resume (s : State) : State :=
  { s with
    memory := match s.dataBox with
      | some box => writeBytes s.memory box.buffer box.bytes
      | none => s.memory
    ptr := s.smmPrivateBox.getD s.ptr }

end Edk2.BootScript
