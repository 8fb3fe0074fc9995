import Edk2.Base
import Edk2.Lib.Overlay

/-!
# The LockBox store of SMM

`SmmLockBoxLib/SmmLockBoxSmmLib.c`. A box is a copy in SMRAM of a buffer of its caller. The pages of
a box belong to it alone, as the page allocator never gives away pages that are in use; the memory
of the callers is apart from them. An allocation succeeds or fails as it likes, and new pages hold
whatever was in them before.
-/

namespace Edk2.LockBox

open Overlay

abbrev Byte := UInt8
abbrev Guid := BitVec 128

/-- `LOCK_BOX_ATTRIBUTE_RESTORE_IN_PLACE`, `LOCK_BOX_ATTRIBUTE_RESTORE_IN_S3_ONLY`. -/
abbrev lockBoxAttributeRestoreInPlace : BitVec 64 := 1
abbrev lockBoxAttributeRestoreInS3Only : BitVec 64 := 2

def restoreInPlace (attributes : BitVec 64) : Bool :=
  attributes &&& lockBoxAttributeRestoreInPlace != 0

def restoreInS3Only (attributes : BitVec 64) : Bool :=
  attributes &&& lockBoxAttributeRestoreInS3Only != 0

/-- `SMM_LOCK_BOX_DATA`; `smram` is what `SmramBuffer` points to. -/
structure SmmLockBoxData where
  guid : Guid
  buffer : ℕ
  length : ℕ
  attributes : BitVec 64
  smram : ℕ → Byte

structure State where
  /-- `mLockBoxQueue`. -/
  queue : List SmmLockBoxData
  /-- `mSmmLockBoxSmmReadyToLock`. -/
  readyToLock : Bool
  /-- `mSmmLockBoxDuringS3Resume`. -/
  duringS3Resume : Bool
  /-- The memory of the callers. -/
  memory : ℕ → Byte

def State.initial (memory : ℕ → Byte) : State := ⟨[], false, false, memory⟩

abbrev maxUintn : ℕ := 2 ^ 64 - 1

def efiSizeToPages (size : ℕ) : ℕ := size / 4096 + if 0 < size % 4096 then 1 else 0

def efiPagesToSize (pages : ℕ) : ℕ := u64 (pages * 4096)

/-- The pages that `SmmAllocatePages` returns. -/
abbrev Pages := Option (ℕ → Byte)

def internalFindLockBoxByGuid (queue : List SmmLockBoxData) (guid : Guid) : Option SmmLockBoxData :=
  queue.find? fun box => box.guid = guid

/-- The box of a GUID is written. -/
def modifyLockBox (guid : Guid) (f : SmmLockBoxData → SmmLockBoxData) : List SmmLockBoxData → List SmmLockBoxData
  | [] => []
  | box :: queue => if box.guid = guid then f box :: queue else box :: modifyLockBox guid f queue

def saveLockBox (s : State) (guid : Option Guid) (buffer length : ℕ) (pages : Pages)
    (pool : Bool) : EfiStatus × State :=
  match guid with
  | none => (.invalidParameter, s)
  | some guid =>
    if buffer = 0 ∨ length = 0 then (.invalidParameter, s)
    else if (internalFindLockBoxByGuid s.queue guid).isSome then (.alreadyStarted, s)
    else
      match pages with
      | none => (.outOfResources, s)
      | some pages =>
        if !pool then (.outOfResources, s)
        else
          let smram := overlay pages 0 length fun i => s.memory (buffer + i)
          (.success, { s with queue := s.queue ++ [⟨guid, buffer, length, 0, smram⟩] })

def setLockBoxAttributes (s : State) (guid : Option Guid) (attributes : BitVec 64) :
    EfiStatus × State :=
  match guid with
  | none => (.invalidParameter, s)
  | some guid =>
    if attributes &&& ~~~(lockBoxAttributeRestoreInPlace ||| lockBoxAttributeRestoreInS3Only) ≠ 0
    then (.invalidParameter, s)
    else if restoreInPlace attributes ∧ restoreInS3Only attributes then (.invalidParameter, s)
    else
      match internalFindLockBoxByGuid s.queue guid with
      | none => (.notFound, s)
      | some box =>
        if restoreInPlace attributes ∧ restoreInS3Only box.attributes ∨
            restoreInPlace box.attributes ∧ restoreInS3Only attributes then
          (.invalidParameter, s)
        else
          let queue := modifyLockBox guid (fun box => { box with attributes := attributes }) s.queue
          (.success, { s with queue := queue })

/-- The gap between a box and what is put behind it is wiped. -/
def zeroGap (smram : ℕ → Byte) (length offset : ℕ) : ℕ → Byte :=
  if length < offset then overlay smram length (offset - length) fun _ => 0 else smram

def updateLockBox (s : State) (guid : Option Guid) (offset buffer length : ℕ) (pages : Pages) :
    EfiStatus × State :=
  match guid with
  | none => (.invalidParameter, s)
  | some guid =>
    if buffer = 0 ∨ length = 0 ∨ maxUintn - offset < length then (.invalidParameter, s)
    else
      match internalFindLockBoxByGuid s.queue guid with
      | none => (.notFound, s)
      | some box =>
        let write (smram : ℕ → Byte) := overlay smram offset length fun i => s.memory (buffer + i)
        let store (length : ℕ) (smram : ℕ → Byte) : State :=
          { s with
            queue := modifyLockBox guid
              (fun box => { box with length := length, smram := smram }) s.queue }
        if box.length < offset + length then
          if restoreInS3Only box.attributes then
            if efiPagesToSize (efiSizeToPages box.length) < offset + length then
              match pages with
              | none => (.outOfResources, s)
              | some pages =>
                let smram := overlay pages 0 box.length box.smram
                (.success, store (offset + length) (write (zeroGap smram box.length offset)))
            else (.success, store (offset + length) (write (zeroGap box.smram box.length offset)))
          else (.bufferTooSmall, s)
        else (.success, store box.length (write box.smram))

/-- `RestoreLockBox`, with `*Length` afterwards. -/
def restoreLockBox (s : State) (guid : Option Guid) (buffer : ℕ) (length : Option ℕ) :
    EfiStatus × State × Option ℕ :=
  match guid with
  | none => (.invalidParameter, s, length)
  | some guid =>
    if buffer = 0 ∧ length.isSome ∨ buffer ≠ 0 ∧ length.isNone then
      (.invalidParameter, s, length)
    else
      match internalFindLockBoxByGuid s.queue guid with
      | none => (.notFound, s, length)
      | some box =>
        if restoreInS3Only box.attributes ∧ s.readyToLock ∧ !s.duringS3Resume then
          (.accessDenied, s, length)
        else if buffer = 0 ∧ !restoreInPlace box.attributes then (.writeProtected, s, length)
        else
          let target := if buffer ≠ 0 then buffer else box.buffer
          match length with
          | some length =>
            if length < box.length then (.bufferTooSmall, s, some box.length)
            else
              (.success, { s with memory := overlay s.memory target box.length box.smram },
                some box.length)
          | none =>
            (.success, { s with memory := overlay s.memory target box.length box.smram }, none)

def restoreAllLockBoxInPlace (s : State) : EfiStatus × State :=
  let restore (memory : ℕ → Byte) (box : SmmLockBoxData) :=
    if restoreInPlace box.attributes then overlay memory box.buffer box.length box.smram
    else memory
  (.success, { s with memory := s.queue.foldl restore s.memory })

/-! ### Calls -/

inductive Call
  | save (guid : Option Guid) (buffer length : ℕ) (pages : Pages) (pool : Bool)
  | setAttributes (guid : Option Guid) (attributes : BitVec 64)
  | update (guid : Option Guid) (offset buffer length : ℕ) (pages : Pages)
  | restore (guid : Option Guid) (buffer : ℕ) (length : Option ℕ)
  | restoreAll

def State.call (s : State) : Call → EfiStatus × State
  | .save guid buffer length pages pool => saveLockBox s guid buffer length pages pool
  | .setAttributes guid attributes => setLockBoxAttributes s guid attributes
  | .update guid offset buffer length pages => updateLockBox s guid offset buffer length pages
  | .restore guid buffer length =>
    let (status, s, _) := restoreLockBox s guid buffer length
    (status, s)
  | .restoreAll => restoreAllLockBoxInPlace s

end Edk2.LockBox
