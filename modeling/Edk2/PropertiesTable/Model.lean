import Edk2.Page.Model
import Edk2.Lib.Slots

/-!
# Splitting the memory map by image sections

`Core/Dxe/Misc/PropertiesTable.c`: the functions under `SplitTable`, which replace every entry of
the memory map that covers images by entries for their code and data. The buffer of descriptors
is a row of slots, and a descriptor pointer is the number of a slot. The heap guard is off, so
`MergeGuardPages` does nothing.
-/

namespace Edk2.PropertiesTable

open Edk2.Pool (MemoryType efiRuntimeServicesCode efiRuntimeServicesData efiSizeToPages)
open Edk2.Page ( efiMemoryMappedIO efiMemoryMappedIOPortSpace)

structure EfiMemoryDescriptor where
  type : MemoryType
  physicalStart : ℕ
  virtualStart : ℕ
  numberOfPages : ℕ
  /-- `Attribute`. -/
  attr : BitVec 64
deriving DecidableEq, Repr

/-- `IMAGE_PROPERTIES_RECORD_CODE_SECTION`. -/
structure CodeSection where
  codeSegmentBase : ℕ
  codeSegmentSize : ℕ
deriving DecidableEq, Repr

/-- `IMAGE_PROPERTIES_RECORD`. -/
structure ImageRecord where
  imageBase : ℕ
  imageSize : ℕ
  codeSegmentList : List CodeSection
deriving DecidableEq, Repr

/-- `CodeSegmentCount`, which is counted up with every section put into the list. -/
def ImageRecord.codeSegmentCount (record : ImageRecord) : ℕ := record.codeSegmentList.length

abbrev maxAddress : ℕ := 0xFFFFFFFFFFFFFFFF

/-- The loop of `IsImageRecordCodeSectionValid`; `last` is `LastImageRecordCodeSection`. -/
def codeSectionValidLoop (record : ImageRecord) : Option CodeSection → List CodeSection → Bool
  | _, [] => true
  | last, s :: rest =>
    if s.codeSegmentSize = 0 then false
    else if s.codeSegmentBase < record.imageBase then false
    else if s.codeSegmentBase ≥ maxAddress - s.codeSegmentSize then false
    else if s.codeSegmentBase + s.codeSegmentSize > u64 (record.imageBase + record.imageSize) then
      false
    else if ∃ t ∈ last, t.codeSegmentBase + t.codeSegmentSize > s.codeSegmentBase then false
    else codeSectionValidLoop record (some s) rest

def isImageRecordCodeSectionValid (record : ImageRecord) : Bool :=
  codeSectionValidLoop record none record.codeSegmentList

/-- `mImagePropertiesPrivateData` and `mPropertiesTableEnable`. -/
structure Properties where
  imageRecordList : List ImageRecord
  codeSegmentCountMax : ℕ
  mPropertiesTableEnable : Bool
deriving DecidableEq, Repr

/-- `ImageRecordCount`, which is counted with the list. -/
def Properties.imageRecordCount (p : Properties) : ℕ := p.imageRecordList.length

def efiPagesToSize (pages : ℕ) : ℕ := u64 (pages * efiPageSize)

/-- `PhysicalStart + EfiPagesToSize (NumberOfPages)`. -/
def physicalEnd (record : EfiMemoryDescriptor) : ℕ :=
  u64 (record.physicalStart + efiPagesToSize record.numberOfPages)

/-! ### Splitting one entry -/

def getImageRecordByAddress (p : Properties) (buffer length : ℕ) : Option ImageRecord :=
  p.imageRecordList.find? fun record =>
    buffer ≤ record.imageBase ∧ u64 (buffer + length) ≥ u64 (record.imageBase + record.imageSize)

/-- The slots that a split writes to: the records counted so far lie from `first` on, and the
pointer `NewRecord` is at the slot behind them. -/
structure NewRecords where
  buffer : Slots EfiMemoryDescriptor
  first : ℕ
  count : ℕ

/-- `*NewRecord = record`. -/
def NewRecords.store (w : NewRecords) (record : EfiMemoryDescriptor) : NewRecords :=
  { w with buffer := w.buffer.set (w.first + w.count) record }

/-- `NewRecord` and its count are advanced. -/
def NewRecords.advance (w : NewRecords) : NewRecords := { w with count := w.count + 1 }

/-- Store a record, and advance behind it unless it has no pages. -/
def NewRecords.add (w : NewRecords) (record : EfiMemoryDescriptor) : NewRecords :=
  if record.numberOfPages ≠ 0 then (w.store record).advance else w.store record

/-- A record of data from `start` to `stop`, made from the record `temp`. -/
def dataRecord (p : Properties) (temp : EfiMemoryDescriptor) (start stop : ℕ) :
    EfiMemoryDescriptor where
  type := if p.mPropertiesTableEnable then efiRuntimeServicesData else temp.type
  physicalStart := start
  virtualStart := 0
  numberOfPages := efiSizeToPages (sub64 stop start)
  attr := temp.attr ||| efiMemoryXp

/-- The record of a code section, made from the record `temp`. -/
def codeRecord (p : Properties) (temp : EfiMemoryDescriptor) (s : CodeSection) :
    EfiMemoryDescriptor where
  type := if p.mPropertiesTableEnable then efiRuntimeServicesCode else temp.type
  physicalStart := s.codeSegmentBase
  virtualStart := 0
  numberOfPages := efiSizeToPages s.codeSegmentSize
  attr := (temp.attr &&& ~~~efiMemoryXp) ||| efiMemoryRo

/-- The loop of `SetNewRecord` over the code sections; `stop` is `PhysicalEnd`. -/
def codeSectionLoop (p : Properties) (stop : ℕ) :
    List CodeSection → EfiMemoryDescriptor → NewRecords → EfiMemoryDescriptor × NewRecords
  | [], temp, w => (temp, w)
  | s :: rest, temp, w =>
    if temp.physicalStart ≤ s.codeSegmentBase then
      let w := w.add (dataRecord p temp temp.physicalStart s.codeSegmentBase)
      let w := w.add (codeRecord p temp s)
      let start := u64 (s.codeSegmentBase + efiPagesToSize (efiSizeToPages s.codeSegmentSize))
      let temp := { temp with
        physicalStart := start, numberOfPages := efiSizeToPages (sub64 stop start) }
      if temp.numberOfPages = 0 then (temp, w) else codeSectionLoop p stop rest temp w
    else codeSectionLoop p stop rest temp w

def setNewRecord (p : Properties) (image : ImageRecord) (temp : EfiMemoryDescriptor)
    (w : NewRecords) : NewRecords :=
  let (temp, w) := codeSectionLoop p (physicalEnd temp) image.codeSegmentList temp w
  let imageEnd := u64 (image.imageBase + image.imageSize)
  if temp.physicalStart < imageEnd then
    (w.store (dataRecord p temp temp.physicalStart imageEnd)).advance
  else w

/-- The loop of `GetMaxSplitRecordCount`. After an image the search goes on at its end, so a loop
that has not ended after more rounds than there are images never ends. -/
def maxSplitLoop (p : Properties) (stop : ℕ) : ℕ → ℕ → ℕ → Except Halt ℕ
  | 0, _, _ => .error .loop
  | fuel + 1, start, count =>
    match getImageRecordByAddress p start (sub64 stop start) with
    | none => .ok count
    | some image =>
      let count := count + (2 * image.codeSegmentCount + 1)
      let start := u64 (image.imageBase + image.imageSize)
      if start < stop then maxSplitLoop p stop fuel start count else .ok count

def getMaxSplitRecordCount (p : Properties) (old : EfiMemoryDescriptor) : Except Halt ℕ :=
  (maxSplitLoop p (physicalEnd old) (p.imageRecordCount + 1) old.physicalStart 0).bind fun count =>
    .ok (count - 1)

def isLastRecordData (p : Properties) (last : EfiMemoryDescriptor) : Bool :=
  if p.mPropertiesTableEnable then last.type = efiRuntimeServicesData
  else last.attr &&& efiMemoryXp ≠ 0

/-- What `SplitRecord` does with the addresses behind the last image: the last record is made
longer if it is data, else a new one is added. -/
def closeRecord (p : Properties) (stop : ℕ) (temp : EfiMemoryDescriptor) (w : NewRecords) :
    NewRecords :=
  let last := w.buffer (w.first + w.count - 1)
  if isLastRecordData p last then
    let longer := { last with numberOfPages := efiSizeToPages (sub64 stop last.physicalStart) }
    { w with buffer := w.buffer.set (w.first + w.count - 1) longer }
  else
    (w.store
      { type := if p.mPropertiesTableEnable then efiRuntimeServicesData else temp.type
        physicalStart := temp.physicalStart
        virtualStart := 0
        numberOfPages := temp.numberOfPages
        attr := temp.attr ||| efiMemoryXp }).advance

/-- The loop of `SplitRecord`; `found` tells whether `ImageRecord` is set. -/
def splitRecordLoop (p : Properties) (stop : ℕ) :
    ℕ → Bool → EfiMemoryDescriptor → NewRecords → Except Halt NewRecords
  | 0, _, _, _ => .error .loop
  | fuel + 1, found, temp, w =>
    match getImageRecordByAddress p temp.physicalStart (sub64 stop temp.physicalStart) with
    | none =>
      .ok (if stop > temp.physicalStart ∧ found then closeRecord p stop temp w else w)
    | some image =>
      let w := setNewRecord p image temp w
      let start := u64 (image.imageBase + image.imageSize)
      let temp := { temp with
        physicalStart := start, numberOfPages := efiSizeToPages (sub64 stop start) }
      if start < stop then splitRecordLoop p stop fuel true temp w else .ok w

/-- `SplitRecord` of the record in slot `old` into the slots from `new` on: the buffer and the
number of records less one. -/
def splitRecord (p : Properties) (buffer : Slots EfiMemoryDescriptor)
    (old new maxSplitRecordCount : ℕ) : Except Halt (Slots EfiMemoryDescriptor × ℕ) :=
  if maxSplitRecordCount = 0 then .ok (buffer.set new (buffer old), 0)
  else
    (splitRecordLoop p (physicalEnd (buffer old)) (p.imageRecordCount + 1) false (buffer old)
      { buffer := buffer, first := new, count := 0 }).bind fun w =>
        if w.count = 0 then .error .assert else .ok (w.buffer, w.count - 1)

/-! ### Splitting the table -/

/-- The loop of `SplitTable`. Its arguments are `IndexOld + 1` and `IndexNew + 1`, so that the
empty rest of the map is `0`. -/
def splitTableLoop (p : Properties) :
    ℕ → ℕ → Slots EfiMemoryDescriptor → ℕ → Except Halt (Slots EfiMemoryDescriptor × ℕ)
  | 0, _, buffer, total => .ok (buffer, total)
  | indexOld + 1, newEnd, buffer, total =>
    (getMaxSplitRecordCount p (buffer indexOld)).bind fun maxSplitRecordCount =>
      let indexNew := newEnd - 1 - maxSplitRecordCount
      (splitRecord p buffer indexOld indexNew maxSplitRecordCount).bind fun (buffer, real) =>
        let moved := indexNew + maxSplitRecordCount - real
        splitTableLoop p indexOld moved (buffer.move moved indexNew real) (total + real)

/-- The inner loop of `SortMemoryMap` for one entry: the entry that is least in the end, and the
entries behind it. -/
def sortPass (entry : EfiMemoryDescriptor) :
    List EfiMemoryDescriptor → EfiMemoryDescriptor × List EfiMemoryDescriptor
  | [] => (entry, [])
  | next :: rest =>
    if entry.physicalStart > next.physicalStart then
      ((sortPass next rest).1, entry :: (sortPass next rest).2)
    else ((sortPass entry rest).1, next :: (sortPass entry rest).2)

/-- `SortMemoryMap`, for at most `count` entries. -/
def sortMemoryMap : ℕ → List EfiMemoryDescriptor → List EfiMemoryDescriptor
  | 0, l => l
  | _ + 1, [] => []
  | count + 1, entry :: rest =>
    (sortPass entry rest).1 :: sortMemoryMap count (sortPass entry rest).2

/-- The types that `EnforceMemoryMapAttribute` makes non-executable. -/
def enforced (type : MemoryType) : Bool :=
  type = efiRuntimeServicesData ∨ type = efiMemoryMappedIO ∨ type = efiMemoryMappedIOPortSpace

/-- `EnforceMemoryMapAttribute` on one entry. -/
def enforceMemoryMapAttribute (entry : EfiMemoryDescriptor) : EfiMemoryDescriptor :=
  if enforced entry.type then { entry with attr := entry.attr ||| efiMemoryXp } else entry

/-- `MergeMemoryMap`; `entry` is `NewMemoryMapEntry`. -/
def mergeFrom (entry : EfiMemoryDescriptor) : List EfiMemoryDescriptor → List EfiMemoryDescriptor
  | [] => [entry]
  | next :: rest =>
    if entry.type = next.type ∧ entry.attr = next.attr ∧
        physicalEnd entry = next.physicalStart then
      mergeFrom { entry with numberOfPages := u64 (entry.numberOfPages + next.numberOfPages) } rest
    else entry :: mergeFrom next rest

def mergeMemoryMap : List EfiMemoryDescriptor → List EfiMemoryDescriptor
  | [] => []
  | entry :: rest => mergeFrom entry rest

def Properties.additionalRecordCount (p : Properties) : ℕ :=
  (2 * p.codeSegmentCountMax + 1) * p.imageRecordCount

/-- `SplitTable` on the map in the first `count` slots of a buffer: the map it leaves. -/
def splitTable (p : Properties) (buffer : Slots EfiMemoryDescriptor) (count : ℕ) :
    Except Halt (List EfiMemoryDescriptor) :=
  (splitTableLoop p count (count + p.additionalRecordCount) buffer 0).bind fun (buffer, total) =>
    let buffer := buffer.move 0 (p.additionalRecordCount - total) (count + total)
    let records := (List.range (count + total)).map buffer
    .ok (mergeMemoryMap
      ((sortMemoryMap records.length records).map enforceMemoryMapAttribute))

end Edk2.PropertiesTable
