import Edk2.Variable.Format

/-!
# The variables as the authentication library sees them

`AuthVariableLib` reads and writes variables through `VariableExLibFindVariable` and
`VariableExLibUpdateVariable`. A store maps the name and the vendor GUID of a variable to its
record. `UpdateVariable` is modelled on records; whether a write to the store goes through is one
of the answers that a call gets from its environment.
-/

namespace Edk2.Auth

open Variable (Bytes word readBytes)

/-- `EFI_GUID`. -/
@[ext] structure Guid where
  bytes : List UInt8
  length_bytes : bytes.length = 16
deriving DecidableEq

/-- The characters of a string before its terminator, each a `CHAR16` given by its two bytes. -/
abbrev Name := List (UInt8 × UInt8)

def ascii (chars : List Char) : Name := chars.map fun c => (UInt8.ofNat c.toNat, 0)

/-- The bytes of the characters. -/
def Name.bytes (name : Name) : List UInt8 := name.flatMap fun c => [c.1, c.2]

/-- `StrSize`: the bytes with the terminator. -/
def strSize (name : Name) : ℕ := 2 * name.length + 2

/-- What identifies a variable. -/
@[ext] structure Key where
  name : Name
  guid : Guid
deriving DecidableEq

/-- The attribute bits that `SetVariable` accepts. -/
structure Attributes where
  nonVolatile : Bool := false
  bootserviceAccess : Bool := false
  runtimeAccess : Bool := false
  hardwareErrorRecord : Bool := false
  authenticatedWriteAccess : Bool := false
  timeBasedAuthenticatedWriteAccess : Bool := false
  appendWrite : Bool := false
deriving DecidableEq, Repr

namespace Attributes

variable (a : Attributes)

/-- `EFI_VARIABLE_RUNTIME_ACCESS | EFI_VARIABLE_BOOTSERVICE_ACCESS` is not zero. -/
def access : Bool := a.runtimeAccess || a.bootserviceAccess

/-- `Attributes & (~EFI_VARIABLE_APPEND_WRITE)`. -/
def stored : Attributes := { a with appendWrite := false }

/-- The attributes as a `UINT32`. -/
def toNat : ℕ :=
  a.nonVolatile.toNat * 0x1 + a.bootserviceAccess.toNat * 0x2 + a.runtimeAccess.toNat * 0x4 +
    a.hardwareErrorRecord.toNat * 0x8 + a.authenticatedWriteAccess.toNat * 0x10 +
    a.timeBasedAuthenticatedWriteAccess.toNat * 0x20 + a.appendWrite.toNat * 0x40

@[simp] lemma access_stored : a.stored.access = a.access := rfl

@[simp] lemma appendWrite_stored : a.stored.appendWrite = false := rfl

end Attributes

structure EfiTime where
  year : UInt16
  month : UInt8
  day : UInt8
  hour : UInt8
  minute : UInt8
  second : UInt8
  pad1 : UInt8
  nanosecond : UInt32
  timeZone : UInt16
  daylight : UInt8
  pad2 : UInt8
deriving DecidableEq, Repr

/-- The time that `ZeroMem` leaves. -/
def EfiTime.zero : EfiTime := ⟨0, 0, 0, 0, 0, 0, 0, 0, 0, 0, 0⟩

/-- `AuthServiceInternalCompareTimeStamp` and `VariableCompareTimeStampInternal`: the first time is
not later than the second. -/
def compareTimeStamp (first second : EfiTime) : Bool :=
  if first.year ≠ second.year then first.year < second.year
  else if first.month ≠ second.month then first.month < second.month
  else if first.day ≠ second.day then first.day < second.day
  else if first.hour ≠ second.hour then first.hour < second.hour
  else if first.minute ≠ second.minute then first.minute < second.minute
  else first.second ≤ second.second

/-- A variable in the store. It has data and can be accessed: `UpdateVariable` creates no other. -/
structure Record where
  attributes : Attributes
  data : List UInt8
  timeStamp : EfiTime
  access : attributes.access
  data_ne_nil : data ≠ []
deriving DecidableEq

abbrev Store := Key → Option Record

/-- The sizes that the platform is configured with. -/
structure Config where
  maxVariableSize : ℕ
  maxAuthVariableSize : ℕ
  maxVolatileVariableSize : ℕ
  maxHardwareErrorVariableSize : ℕ
  hwErrStorageSize : ℕ
  scratchBufferSize : ℕ
  /-- There is room for a header, and two variables have less bytes than a `UINT32` can count. -/
  maxAuthVariableSize_bounds : 60 ≤ maxAuthVariableSize ∧ maxAuthVariableSize < 2 ^ 31
  maxHardwareErrorVariableSize_bounds :
    60 ≤ maxHardwareErrorVariableSize ∧ maxHardwareErrorVariableSize < 2 ^ 31
deriving DecidableEq

/-! ### UpdateVariable -/

/-- The bound that appending to a variable checks, in `UINTN` arithmetic. -/
def maxDataSize (config : Config) (name : Name) (attributes : Attributes) : ℕ :=
  let dataOffset := Variable.getVariableHeaderSize true + strSize name
  if attributes.hardwareErrorRecord then sub64 config.maxHardwareErrorVariableSize dataOffset
  else if attributes.authenticatedWriteAccess ∨ attributes.timeBasedAuthenticatedWriteAccess then
    sub64 config.maxAuthVariableSize dataOffset
  else if attributes.nonVolatile then sub64 config.maxVariableSize dataOffset
  else sub64 config.maxVolatileVariableSize dataOffset

/-- The time stamp of a variable that is written over `old`. -/
def newTimeStamp (old : Option EfiTime) (attributes : Attributes) (timeStamp : Option EfiTime) :
    EfiTime :=
  match timeStamp with
  | none => .zero
  | some time =>
    if !attributes.timeBasedAuthenticatedWriteAccess then .zero
    else if !attributes.appendWrite then time
    else
      match old with
      | none => .zero
      | some old => if compareTimeStamp old time then time else old

/-- `UpdateVariable`: the status and what the store holds afterwards. `old` is the variable that
was found, `written` the status of the write to the store. -/
def updateRecord (config : Config) (atRuntime : Bool) (written : EfiStatus) (name : Name)
    (old : Option Record) (data : List UInt8) (attributes : Attributes)
    (timeStamp : Option EfiTime) : EfiStatus × Option Record :=
  match old with
  | some record =>
    if atRuntime ∧ !record.attributes.nonVolatile then (.writeProtected, old)
    else if atRuntime ∧ !record.attributes.runtimeAccess then (.invalidParameter, old)
    else if h : attributes.access ∧ (attributes.appendWrite ∨ data ≠ []) then
      if record.data = data ∧ !attributes.appendWrite ∧ timeStamp = none then (.success, old)
      else if hadd : attributes.appendWrite then
        if maxDataSize config name attributes < record.data.length + data.length then
          (.invalidParameter, old)
        else if written.isError then (written, old)
        else
          (.success, some {
            attributes := attributes.stored
            data := record.data ++ data
            timeStamp := newTimeStamp (some record.timeStamp) attributes timeStamp
            access := h.1
            data_ne_nil := by simp [record.data_ne_nil] })
      else if written.isError then (written, old)
      else
        (.success, some {
          attributes := attributes.stored
          data := data
          timeStamp := newTimeStamp (some record.timeStamp) attributes timeStamp
          access := h.1
          data_ne_nil := h.2.resolve_left hadd })
    -- no access, or no data without the append attribute: the variable is deleted
    else if written.isError then (written, old)
    else (.success, none)
  | none =>
    if data = [] ∧ attributes.appendWrite then (.success, none)
    else if h : data = [] ∨ !attributes.access then (.notFound, none)
    else if atRuntime ∧ (!attributes.runtimeAccess ∨ !attributes.nonVolatile) then
      (.invalidParameter, none)
    else if written.isError then (written, none)
    else
      (.success, some {
        attributes := attributes.stored
        data := data
        timeStamp := newTimeStamp none attributes timeStamp
        access := by simpa using (not_or.mp h).2
        data_ne_nil := (not_or.mp h).1 })

end Edk2.Auth
