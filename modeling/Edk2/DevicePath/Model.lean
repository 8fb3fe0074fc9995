import Edk2.Base
import Edk2.Lib.Bytes

/-!
# Device paths

`UefiDevicePathLib/DevicePathUtilities.c`. A device path is a string of nodes: a type, a subtype, a
length of two bytes and the data of the node. It ends in a node for the end of the entire path;
there may be nodes for the end of an instance before it.

A buffer is all the memory that may be read: there is no result if something else is read, or if a
loop does not end. `NULL` is `none`. Paths are in memory, so that sums of their sizes do not wrap.
-/

namespace Edk2.DevicePath

abbrev Byte := UInt8

/-- `PcdMaximumDevicePathNodeCount`, and whether `AllocatePool` has memory of a size. -/
structure Config where
  maximumNodeCount : ℕ
  pool : ℕ → Bool

def devicePathType (buffer : List Byte) (node : ℕ) : Option Byte := buffer[node]?

def devicePathSubType (buffer : List Byte) (node : ℕ) : Option Byte := buffer[node + 1]?

def readUnaligned16 (buffer : List Byte) (a : ℕ) : Option ℕ := do
  let low ← buffer[a]?
  let high ← buffer[a + 1]?
  some (low.toNat + 256 * high.toNat)

def devicePathNodeLength (buffer : List Byte) (node : ℕ) : Option ℕ :=
  readUnaligned16 buffer (node + 2)

def nextDevicePathNode (buffer : List Byte) (node : ℕ) : Option ℕ := do
  some (node + (← devicePathNodeLength buffer node))

def isDevicePathEndType (buffer : List Byte) (node : ℕ) : Option Bool := do
  some (decide ((← devicePathType buffer node) = 0x7F))

def isDevicePathEnd (buffer : List Byte) (node : ℕ) : Option Bool := do
  if ← isDevicePathEndType buffer node then
    some (decide ((← devicePathSubType buffer node) = 0xFF))
  else some false

/-- A file path must be a string with an end. -/
def isFilePathTerminated (buffer : List Byte) (node nodeLength : ℕ) : Option Bool := do
  if (← devicePathType buffer node) = 0x04 then
    if (← devicePathSubType buffer node) = 0x04 then
      some (decide ((← readUnaligned16 buffer (node + nodeLength - 2)) = 0))
    else some true
  else some true

/-- The loop of `IsDevicePathValid`. -/
def isDevicePathValidLoop (maximumNodeCount : ℕ) (buffer : List Byte) (maxSize : ℕ) :
    ℕ → ℕ → ℕ → ℕ → Option Bool
  | 0, _, _, _ => none
  | fuel + 1, devicePath, size, count => do
    if ← isDevicePathEnd buffer devicePath then
      some (decide ((← devicePathNodeLength buffer devicePath) = 4))
    else
      let nodeLength ← devicePathNodeLength buffer devicePath
      if nodeLength < 4 then some false
      else if 2 ^ 64 - 1 - size < nodeLength then some false
      else if maxSize - 4 < size + nodeLength then some false
      else if 0 < maximumNodeCount ∧ maximumNodeCount ≤ count + 1 then some false
      else
        let terminated ← isFilePathTerminated buffer devicePath nodeLength
        if !terminated then some false
        else
          isDevicePathValidLoop maximumNodeCount buffer maxSize fuel (devicePath + nodeLength)
            (size + nodeLength) (if 0 < maximumNodeCount then count + 1 else count)

/-- `IsDevicePathValid`. Every turn of its loop goes on in the buffer. -/
def isDevicePathValid (maximumNodeCount : ℕ) (buffer : List Byte) (devicePath maxSize : ℕ) :
    Option Bool :=
  if 0 < maxSize ∧ maxSize < 4 then some false
  else
    isDevicePathValidLoop maximumNodeCount buffer (if maxSize = 0 then 2 ^ 64 - 1 else maxSize)
      (buffer.length + 1) devicePath 0 0

/-- The loops that look for the end of a path, or of an instance. -/
def findEnd (isEnd : List Byte → ℕ → Option Bool) (buffer : List Byte) : ℕ → ℕ → Option ℕ
  | 0, _ => none
  | fuel + 1, devicePath => do
    if ← isEnd buffer devicePath then some devicePath
    else findEnd isEnd buffer fuel (← nextDevicePathNode buffer devicePath)

/-- `GetDevicePathSize`, for a path that is there. -/
def getDevicePathSize (maximumNodeCount : ℕ) (buffer : List Byte) (start : ℕ) : Option ℕ := do
  if ← isDevicePathValid maximumNodeCount buffer start 0 then
    let devicePath ← findEnd isDevicePathEnd buffer (buffer.length + 1) start
    some (devicePath - start + (← devicePathNodeLength buffer devicePath))
  else some 0

/-- `DuplicateDevicePath`, for a path that is there. -/
def duplicateDevicePath (config : Config) (buffer : List Byte) (devicePath : ℕ) :
    Option (Option (List Byte)) := do
  let size ← getDevicePathSize config.maximumNodeCount buffer devicePath
  if size = 0 then some none
  else if config.pool size then some (some ((buffer.drop devicePath).take size))
  else some none

/-- The end of an entire device path. -/
def endDevicePath : List Byte := [0x7F, 0xFF, 0x04, 0x00]

def appendDevicePath (config : Config) (first second : Option (List Byte)) :
    Option (Option (List Byte)) :=
  match first, second with
  | none, none => duplicateDevicePath config endDevicePath 0
  | none, some second => duplicateDevicePath config second 0
  | some first, none => duplicateDevicePath config first 0
  | some first, some second => do
    if !(← isDevicePathValid config.maximumNodeCount first 0 0) then some none
    else if !(← isDevicePathValid config.maximumNodeCount second 0 0) then some none
    else
      let size1 ← getDevicePathSize config.maximumNodeCount first 0
      let size2 ← getDevicePathSize config.maximumNodeCount second 0
      if config.pool (size1 + size2 - 4) then
        -- the end node of the first path is overwritten
        some (some ((first.take size1).take (size1 - 4) ++ second.take size2))
      else some none

def appendDevicePathInstance (config : Config) (devicePath devicePathInstance : Option (List Byte)) :
    Option (Option (List Byte)) :=
  match devicePath, devicePathInstance with
  | none, none => some none
  | none, some inst => duplicateDevicePath config inst 0
  | some _, none => some none
  | some devicePath, some inst => do
    if !(← isDevicePathValid config.maximumNodeCount devicePath 0 0) then some none
    else if !(← isDevicePathValid config.maximumNodeCount inst 0 0) then some none
    else
      let srcSize ← getDevicePathSize config.maximumNodeCount devicePath 0
      let instanceSize ← getDevicePathSize config.maximumNodeCount inst 0
      if config.pool (srcSize + instanceSize) then do
        let newDevicePath := devicePath.take srcSize
        let temp ← findEnd isDevicePathEnd newDevicePath (newDevicePath.length + 1) 0
        let newDevicePath := newDevicePath.set (temp + 1) 0x01
        let next ← nextDevicePathNode newDevicePath temp
        some (some (newDevicePath.take next ++ inst.take instanceSize))
      else some none

/-- What `GetNextDevicePathInstance` returns: the copy, `*Size` if it is written, `*DevicePath`, and
the memory of the path. -/
structure NextInstance where
  copy : Option (List Byte)
  size : Option ℕ
  devicePath : Option ℕ
  buffer : List Byte

def getNextDevicePathInstance (config : Config) (buffer : List Byte) (devicePath : Option ℕ) :
    Option NextInstance :=
  match devicePath with
  | none => some ⟨none, some 0, none, buffer⟩
  | some start => do
    if !(← isDevicePathValid config.maximumNodeCount buffer start 0) then
      some ⟨none, none, some start, buffer⟩
    else
      let devPath ← findEnd isDevicePathEndType buffer (buffer.length + 1) start
      let temp ← devicePathSubType buffer devPath
      let buffer := buffer.set (devPath + 1) 0xFF
      let returnValue ← duplicateDevicePath config buffer start
      let buffer := buffer.set (devPath + 1) temp
      let next ← if temp = 0xFF then some none else (nextDevicePathNode buffer devPath).map some
      some ⟨returnValue, some (devPath - start + 4), next, buffer⟩

end Edk2.DevicePath
