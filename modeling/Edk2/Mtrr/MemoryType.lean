import Edk2.Base
import Edk2.Lib.Bytes

/-!
# Memory types of ranges

`UefiCpuPkg/Library/MtrrLib/MtrrLib.c`. The types of the whole address space are kept in an array of
ranges, which `MtrrLibSetMemoryType` changes in place. Numbers of ranges do not wrap around.
-/

namespace Edk2.Mtrr

open Bytes

inductive MtrrMemoryCacheType
  | uncacheable
  | writeCombining
  | writeThrough
  | writeProtected
  | writeBack
  | invalid
deriving DecidableEq, Repr

structure MtrrMemoryRange where
  baseAddress : ℕ
  length : ℕ
  type : MtrrMemoryCacheType
deriving DecidableEq, Repr

/-- `BaseAddress + Length`. -/
def MtrrMemoryRange.stop (r : MtrrMemoryRange) : ℕ := u64 (r.baseAddress + r.length)

/-- The ranges that contain the base address and the limit, by their index, and what of them lies to
the left and to the right. -/
structure Indices where
  startIndex : ℕ
  endIndex : ℕ
  lengthLeft : ℕ
  lengthRight : ℕ
deriving DecidableEq, Repr

section

variable (ranges : ℕ → MtrrMemoryRange) (count baseAddress limit : ℕ)

/-- The index is that of the range with the base address, if there is none yet. -/
def noteStart (index : ℕ) (found : Indices) : Indices :=
  if found.startIndex = count ∧ (ranges index).baseAddress ≤ baseAddress ∧
      baseAddress < (ranges index).stop then
    { found with startIndex := index, lengthLeft := baseAddress - (ranges index).baseAddress }
  else found

/-- The loop over the ranges, `n` of which are left. -/
def findIndices : ℕ → ℕ → Indices → Indices
  | 0, _, found => found
  | n + 1, index, found =>
    let found := noteStart ranges count baseAddress index found
    if found.endIndex = count ∧ (ranges index).baseAddress < limit ∧
        limit ≤ (ranges index).stop then
      { found with endIndex := index, lengthRight := (ranges index).stop - limit }
    else findIndices n (index + 1) found

end

/-- The ranges that are replaced and the range that is put there. -/
structure Replacement where
  startIndex : ℕ
  endIndex : ℕ
  baseAddress : ℕ
  length : ℕ
deriving DecidableEq, Repr

/-- Merge with the previous range. -/
def mergePrevious (ranges : ℕ → MtrrMemoryRange) (type : MtrrMemoryCacheType) (lengthLeft : ℕ)
    (p : Replacement) : Replacement :=
  if p.startIndex ≠ 0 ∧ lengthLeft = 0 ∧ (ranges (p.startIndex - 1)).type = type then
    { p with
      startIndex := p.startIndex - 1
      baseAddress := sub64 p.baseAddress (ranges (p.startIndex - 1)).length
      length := u64 (p.length + (ranges (p.startIndex - 1)).length) }
  else p

/-- Merge with the next range. -/
def mergeNext (ranges : ℕ → MtrrMemoryRange) (count : ℕ) (type : MtrrMemoryCacheType)
    (lengthRight : ℕ) (p : Replacement) : Replacement :=
  if p.endIndex ≠ count - 1 ∧ lengthRight = 0 ∧ (ranges (p.endIndex + 1)).type = type then
    { p with
      endIndex := p.endIndex + 1
      length := u64 (p.length + (ranges (p.endIndex + 1)).length) }
  else p

/-- `DeltaCount`: how many ranges are less; it may be negative. -/
def deltaCount (p : Replacement) (lengthLeft lengthRight : ℕ) : ℤ :=
  (p.endIndex : ℤ) - p.startIndex - 2 + (if lengthLeft = 0 then 1 else 0) +
    (if lengthRight = 0 then 1 else 0)

/-- Write what is left of the first range, and the index behind it. -/
def putLeft (startIndex lengthLeft : ℕ) (ranges : ℕ → MtrrMemoryRange) :
    (ℕ → MtrrMemoryRange) × ℕ :=
  if lengthLeft ≠ 0 then
    (writeBytes ranges startIndex [{ ranges startIndex with length := lengthLeft }], startIndex + 1)
  else (ranges, startIndex)

/-- Write what is left of the last range; its type is read from where it was. -/
def putRight (p : Replacement) (index lengthRight : ℕ) (ranges : ℕ → MtrrMemoryRange) :
    ℕ → MtrrMemoryRange :=
  if lengthRight ≠ 0 then
    writeBytes ranges index
      [⟨u64 (p.baseAddress + p.length), lengthRight, (ranges p.endIndex).type⟩]
  else ranges

/-- Move the ranges behind the last one and write the new ones. -/
def replaceRanges (ranges : ℕ → MtrrMemoryRange) (count : ℕ) (type : MtrrMemoryCacheType)
    (p : Replacement) (lengthLeft lengthRight : ℕ) : ℕ → MtrrMemoryRange :=
  let delta := deltaCount p lengthLeft lengthRight
  let moved := writeBytes ranges (p.endIndex + 1 - delta).toNat
    (bytesAt ranges (p.endIndex + 1) (count - p.endIndex - 1))
  let (ranges, startIndex) := putLeft p.startIndex lengthLeft moved
  let ranges := putRight p (p.endIndex - delta).toNat lengthRight ranges
  writeBytes ranges startIndex [⟨p.baseAddress, p.length, type⟩]

/-- `MtrrLibSetMemoryType`: the status, the ranges and their number. -/
def mtrrLibSetMemoryType (ranges : ℕ → MtrrMemoryRange) (capacity count baseAddress length : ℕ)
    (type : MtrrMemoryCacheType) : Except Halt (EfiStatus × (ℕ → MtrrMemoryRange) × ℕ) :=
  let limit := u64 (baseAddress + length)
  let found := findIndices ranges count baseAddress limit count 0 ⟨count, count, 0, 0⟩
  if found.startIndex = count ∨ found.endIndex = count then throw .assert
  else if found.startIndex = found.endIndex ∧ (ranges found.startIndex).type = type then
    return (.alreadyStarted, ranges, count)
  else
    let p := mergeNext ranges count type found.lengthRight
      (mergePrevious ranges type found.lengthLeft
        ⟨found.startIndex, found.endIndex, baseAddress, length⟩)
    let delta := deltaCount p found.lengthLeft found.lengthRight
    if count - delta > (capacity : ℤ) then return (.outOfResources, ranges, count)
    else
      return (.success, replaceRanges ranges count type p found.lengthLeft found.lengthRight,
        (count - delta).toNat)

end Edk2.Mtrr
