import Edk2.Base
import Edk2.Lib.Bytes

/-!
# Variables as a string of bytes

`OvmfPkg/Library/SerializeVariablesLib`. Variables are added to the buffer of an instance, one
behind the other: the size of the name, the name, the GUID, the attributes, the size of the data and
the data. The same format is read back.

There is no result if the `ASSERT` of `AppendToBuffer` fails, or if a name has no end.
-/

namespace Edk2.SerializeVariables

open Bytes

abbrev Byte := UInt8

/-- `EFI_GUID`. -/
@[ext]
structure Guid where
  bytes : List Byte
  length_bytes : bytes.length = 16
deriving DecidableEq

/-- What `AllocatePool` answers to the calls to come: the call and the size give the memory. -/
abbrev Pool := ℕ → ℕ → Option (ℕ → Byte)

/-- An answer is used up. -/
def Pool.next (p : Pool) : Pool := fun n => p (n + 1)

structure SvInstance where
  bufferPtr : Option (ℕ → Byte)
  bufferSize : ℕ
  dataSize : ℕ

/-! ### Adding -/

def ensureExtraBufferSpace (p : Pool) (i : SvInstance) (size : ℕ) : EfiStatus × SvInstance × Pool :=
  let newSize := u64 (i.dataSize + size)
  if newSize ≤ i.bufferSize then (.success, i, p)
  else
    let newSize := u64 (2 * newSize)
    match p 0 newSize with
    | none => (.outOfResources, i, p.next)
    | some newBuffer =>
      let newBuffer := match i.bufferPtr with
        | some buffer => writeBytes newBuffer 0 (bytesAt buffer 0 i.dataSize)
        | none => newBuffer
      (.success, { i with
        bufferPtr := some newBuffer
        bufferSize := newSize }, p.next)

def appendToBuffer (i : SvInstance) (data : List Byte) : Option SvInstance :=
  let newSize := u64 (i.dataSize + data.length)
  if newSize ≤ i.bufferSize then
    some { i with
      bufferPtr := i.bufferPtr.map fun buffer => writeBytes buffer i.dataSize data
      dataSize := newSize }
  else none

/-- `StrSize`, of a string in memory. -/
def strSize : List Byte → Option ℕ
  | low :: high :: rest =>
    if low = 0 ∧ high = 0 then some 2 else (strSize rest).map (· + 2)
  | _ => none

def serializeVariablesAddVariable (p : Pool) (i : SvInstance) (variableName : List Byte)
    (vendorGuid : Guid) (attributes : UInt32) (data : List Byte) :
    Option (EfiStatus × SvInstance × Pool) := do
  let nameSize ← strSize variableName
  let serializedNameSize := u32 nameSize
  let serializedSize := u64 (4 + serializedNameSize + 16 + 4 + 4 + data.length)
  let (status, i, p) := ensureExtraBufferSpace p i serializedSize
  if status.isError then some (status, i, p)
  else do
    let i ← appendToBuffer i (field 4 serializedNameSize)
    let i ← appendToBuffer i (variableName.take serializedNameSize)
    let i ← appendToBuffer i vendorGuid.bytes
    let i ← appendToBuffer i (field 4 attributes.toNat)
    let i ← appendToBuffer i (field 4 (u32 data.length))
    let i ← appendToBuffer i data
    some (.success, i, p)

/-! ### Reading -/

/-- What `UnpackVariableFromBuffer` finds. -/
structure Unpacked where
  name : List Byte
  guid : Guid
  attributes : UInt32
  data : List Byte
  sizeUsed : ℕ

/-- `UnpackVariableFromBuffer`. The sizes have 32 bits, so that no sum wraps. -/
def unpackVariableFromBuffer (buffer : ℕ → Byte) (maxSize : ℕ) : Except EfiStatus Unpacked :=
  let nameSize := fieldValue (bytesAt buffer 0 4)
  if maxSize < 4 then .error .invalidParameter
  else
    let offset := 4 + nameSize
    if maxSize < offset then .error .invalidParameter
    else if maxSize < offset + 16 then .error .invalidParameter
    else if maxSize < offset + 20 then .error .invalidParameter
    else if maxSize < offset + 24 then .error .invalidParameter
    else
      let dataSize := fieldValue (bytesAt buffer (offset + 20) 4)
      if maxSize < offset + 24 + dataSize then .error .invalidParameter
      else .ok {
        name := bytesAt buffer 4 nameSize
        guid := ⟨bytesAt buffer offset 16, length_bytesAt⟩
        attributes := .ofNat (fieldValue (bytesAt buffer (offset + 16) 4))
        data := bytesAt buffer (offset + 24) dataSize
        sizeUsed := offset + 24 + dataSize }

/-- `VARIABLE_SERIALIZATION_ITERATION_CALLBACK`, with its context and the memory it may take. -/
abbrev Callback (σ : Type) := σ → Pool → List Byte → Guid → UInt32 → List Byte →
  Option (EfiStatus × σ × Pool)

variable {σ : Type}

/-- The end of `IterateVariablesInBuffer`. The status of the last callback is not looked at. -/
def iterateDone (maxSize totalSizeUsed : ℕ) (context : σ) (p : Pool) : EfiStatus × σ × Pool :=
  (if totalSizeUsed ≠ maxSize then .invalidParameter else .success, context, p)

/-- The loop of `IterateVariablesInBuffer`. `AlignedNameMaxSize` stays 0, so that every name that is
not empty is copied to new memory. -/
def iterateLoop (callback : Callback σ) (buffer : ℕ → Byte) (maxSize : ℕ) :
    ℕ → ℕ → Option (List Byte) → σ → Pool → Option (EfiStatus × σ × Pool)
  | 0, _, _, _, _ => none
  | fuel + 1, totalSizeUsed, alignedName, context, p =>
    if totalSizeUsed < maxSize then
      match unpackVariableFromBuffer (fun a => buffer (totalSizeUsed + a))
          (maxSize - totalSizeUsed) with
      | .error status => some (status, context, p)
      | .ok u =>
        let (alignedName, p) :=
          if 0 < u.name.length then ((p 0 u.name.length).map fun _ => u.name, p.next)
          else (alignedName, p)
        match alignedName with
        | none => some (.outOfResources, context, p)
        | some name => do
          let (status, context, p) ← callback context p name u.guid u.attributes u.data
          let totalSizeUsed := totalSizeUsed + u.sizeUsed
          if status.isError then some (iterateDone maxSize totalSizeUsed context p)
          else iterateLoop callback buffer maxSize fuel totalSizeUsed (some name) context p
    else some (iterateDone maxSize totalSizeUsed context p)

/-- `IterateVariablesInBuffer`. Every turn uses some of the buffer. -/
def iterateVariablesInBuffer (callback : Callback σ) (context : σ) (buffer : ℕ → Byte)
    (maxSize : ℕ) (p : Pool) : Option (EfiStatus × σ × Pool) :=
  iterateLoop callback buffer maxSize (maxSize + 1) 0 none context p

def iterateVariablesCallbackNop : Callback Unit := fun context p _ _ _ _ =>
  some (.success, context, p)

def iterateVariablesCallbackSetInInstance : Callback SvInstance := fun i p name guid attributes data =>
  serializeVariablesAddVariable p i name guid attributes data

/-! ### Instances -/

/-- The instance is zeroed. -/
def SvInstance.fresh : SvInstance := ⟨none, 0, 0⟩

def serializeVariablesNewInstance (p : Pool) : EfiStatus × Option SvInstance × Pool :=
  match p 0 32 with
  | none => (.outOfResources, none, p.next)
  | some _ => (.success, some .fresh, p.next)

def serializeVariablesNewInstanceFromBuffer (p : Pool) (buffer : ℕ → Byte) (size : ℕ) :
    Option (EfiStatus × Option SvInstance × Pool) :=
  match serializeVariablesNewInstance p with
  | (status, none, p) => some (status, none, p)
  | (_, some i, p) => do
    let (status, _, p) ← iterateVariablesInBuffer iterateVariablesCallbackNop () buffer size p
    if status.isError then some (status, none, p)
    else do
      let (status, i, p) ← iterateVariablesInBuffer iterateVariablesCallbackSetInInstance i buffer
        size p
      if status.isError then some (status, none, p) else some (status, some i, p)

def serializeVariablesIterateInstanceVariables (i : SvInstance) (callback : Callback σ)
    (context : σ) (p : Pool) : Option (EfiStatus × σ × Pool) :=
  match i.bufferPtr with
  | none => some (.success, context, p)
  | some buffer =>
    if i.dataSize ≠ 0 then iterateVariablesInBuffer callback context buffer i.dataSize p
    else some (.success, context, p)

/-- The serialized bytes of an instance. -/
def SvInstance.serialized (i : SvInstance) : List Byte :=
  match i.bufferPtr with
  | none => []
  | some buffer => bytesAt buffer 0 i.dataSize

/-- `SerializeVariablesToBuffer`, for a buffer that is there, with `*Size` and what was copied. -/
def serializeVariablesToBuffer (i : SvInstance) (size : ℕ) : EfiStatus × ℕ × List Byte :=
  if size < i.dataSize then (.bufferTooSmall, i.dataSize, [])
  else (.success, i.dataSize, i.serialized)

end Edk2.SerializeVariables
