import Edk2.Base
import Edk2.Lib.Align
import Edk2.Lib.Bytes

/-!
# The section extraction protocol of the DXE core

`Core/Dxe/SectionExtraction/CoreSectionExtraction.c`. A section stream is a node with its buffer
and the children that have been parsed so far; an encapsulating child holds the stream of its
contents. The list `mStreamRoot` and the handles are left out, as every stream but the outermost is
reached through its child only. Allocations succeed, and the set of installed protocols is fixed,
so no registered event is signalled.

The search recurses into streams that are made on the way, so it takes fuel.
-/

namespace Edk2.SectionExtraction

open Bytes

/-- The status codes of the section extraction protocol. -/
inductive SectionStatus
  | success
  | warnBufferTooSmall
  | notFound
  | protocolError
  | badBufferSize
  | invalidParameter
deriving DecidableEq, Repr

/-- `EFI_ERROR (Status)`. -/
def SectionStatus.isError : SectionStatus → Bool
  | .success => false
  | .warnBufferTooSmall => false
  | _ => true

abbrev Guid := List UInt8

/-- The bytes from a pointer on, and how many of them belong to the buffer. -/
structure Buffer where
  length : ℕ
  byte : ℕ → UInt8

def Buffer.value (b : Buffer) (offset size : ℕ) : ℕ := fieldValue (bytesAt b.byte offset size)

/-- The buffer that starts at an offset. -/
def Buffer.slice (b : Buffer) (offset length : ℕ) : Buffer :=
  ⟨length, fun i => b.byte (offset + i)⟩

/-! ### Section headers -/

abbrev efiSectionAll : ℕ := 0x00
abbrev efiSectionCompression : ℕ := 0x01
abbrev efiSectionGuidDefined : ℕ := 0x02
abbrev efiNotCompressed : ℕ := 0x00
abbrev efiStandardCompression : ℕ := 0x01

abbrev efiAuthStatusAll : BitVec 32 := 0x0f

/-- `EFI_AUTH_STATUS_IMAGE_SIGNED | EFI_AUTH_STATUS_NOT_TESTED`. -/
abbrev efiAuthStatusSignedNotTested : BitVec 32 := 0x06

/-- `sizeof (EFI_COMMON_SECTION_HEADER)`. -/
abbrev commonHeaderSize : ℕ := 4

/-- `sizeof (EFI_COMPRESSION_SECTION)`. -/
abbrev compressionHeaderSize : ℕ := 9

def sectionSize (b : Buffer) (offset : ℕ) : ℕ := b.value offset 3

def sectionType (b : Buffer) (offset : ℕ) : ℕ := b.value (offset + 3) 1

def IsSection2 (b : Buffer) (offset : ℕ) : Prop := sectionSize b offset = 0x00FFFFFF

instance (b : Buffer) (offset : ℕ) : Decidable (IsSection2 b offset) :=
  inferInstanceAs (Decidable (_ = _))

def section2Size (b : Buffer) (offset : ℕ) : ℕ := b.value (offset + 4) 4

/-- The size of the section. -/
def nodeSize (b : Buffer) (offset : ℕ) : ℕ :=
  if IsSection2 b offset then section2Size b offset else sectionSize b offset

/-- The size of the common header. -/
def headerSize (b : Buffer) (offset : ℕ) : ℕ := if IsSection2 b offset then 8 else 4

/-! ### Compressed sections -/

def uncompressedLength (b : Buffer) (offset : ℕ) : ℕ := b.value (offset + headerSize b offset) 4

def compressionType (b : Buffer) (offset : ℕ) : ℕ := b.value (offset + headerSize b offset + 4) 1

/-- `CompressionSource` and `CompressionSourceSize`. -/
def compressionSource (b : Buffer) (offset : ℕ) : Buffer :=
  b.slice (offset + (headerSize b offset + 5)) (sub32 (nodeSize b offset) (headerSize b offset + 5))

/-! ### GUID-defined sections -/

def sectionDefinitionGuid (b : Buffer) (offset : ℕ) : Guid :=
  bytesAt b.byte (offset + headerSize b offset) 16

def dataOffset (b : Buffer) (offset : ℕ) : ℕ := b.value (offset + headerSize b offset + 16) 2

/-- The attributes of a GUID-defined section. -/
def guidedAttributes (b : Buffer) (offset : ℕ) : ℕ := b.value (offset + headerSize b offset + 18) 2

/-- `EFI_GUIDED_SECTION_PROCESSING_REQUIRED`. -/
def processingRequired (b : Buffer) (offset : ℕ) : Bool := (guidedAttributes b offset).testBit 0

/-- `EFI_GUIDED_SECTION_AUTH_STATUS_VALID`. -/
def authStatusValid (b : Buffer) (offset : ℕ) : Bool := (guidedAttributes b offset).testBit 1

/-! ### Streams -/

/-- The protocols that are installed, and what the pool leaves in a new buffer. -/
structure Protocols where
  /-- `EFI_DECOMPRESS_PROTOCOL.GetInfo`: the size of the decompressed data. -/
  getInfo : Buffer → Except SectionStatus ℕ
  /-- `EFI_DECOMPRESS_PROTOCOL.Decompress`. -/
  decompress : Buffer → Except SectionStatus (ℕ → UInt8)
  /-- The `EFI_GUIDED_SECTION_EXTRACTION_PROTOCOL` that `VerifyGuidedSectionGuid` finds. -/
  extractSection : Guid → Option (Buffer → Except SectionStatus (Buffer × BitVec 32))
  pool : ℕ → UInt8

/-- `CORE_SECTION_CHILD_NODE`; the streams are a parameter. -/
structure Child (σ : Type) where
  type : ℕ
  size : ℕ
  offsetInStream : ℕ
  encapsulatedStream : Option σ

/-- `CORE_SECTION_STREAM_NODE`. -/
inductive StreamNode
  | mk (streamBuffer : Buffer) (authenticationStatus : BitVec 32)
    (children : List (Child StreamNode))

/-- The stream buffer with its length. -/
def StreamNode.buffer : StreamNode → Buffer
  | .mk b _ _ => b

def StreamNode.authenticationStatus : StreamNode → BitVec 32
  | .mk _ auth _ => auth

abbrev ChildNode := Child StreamNode

def openSectionStreamEx (b : Buffer) (auth : BitVec 32) : StreamNode := .mk b auth []

/-! ### CreateChildNode -/

/-- The new stream of a compressed section. -/
def uncompress (p : Protocols) (b : Buffer) (offset : ℕ) : Except SectionStatus Buffer :=
  if uncompressedLength b offset > 0 then
    if compressionType b offset = efiNotCompressed then
      return b.slice (offset + (headerSize b offset + 5)) (uncompressedLength b offset)
    else if compressionType b offset = efiStandardCompression then do
      let size ← p.getInfo (compressionSource b offset)
      if size ≠ uncompressedLength b offset then throw .badBufferSize
      else return ⟨size, ← p.decompress (compressionSource b offset)⟩
    else return ⟨uncompressedLength b offset, p.pool⟩
  else return ⟨0, p.pool⟩

/-- The stream in a compressed section. -/
def compressedStream (p : Protocols) (b : Buffer) (auth : BitVec 32) (offset : ℕ) :
    Except SectionStatus StreamNode :=
  if nodeSize b offset < compressionHeaderSize then throw .notFound
  else return openSectionStreamEx (← uncompress p b offset) auth

/-- The authentication status of a stream that a protocol has extracted. -/
def extractedStatus (b : Buffer) (auth : BitVec 32) (offset : ℕ) (extracted : BitVec 32) :
    BitVec 32 :=
  if authStatusValid b offset then extracted ||| (auth &&& efiAuthStatusAll) else auth

/-- The authentication status of a stream that is read without its protocol. -/
def untestedStatus (b : Buffer) (auth : BitVec 32) (offset : ℕ) : BitVec 32 :=
  if authStatusValid b offset then auth ||| efiAuthStatusSignedNotTested else auth

/-- The stream in a GUID-defined section; there is none if a required protocol is missing. -/
def guidedStream (p : Protocols) (b : Buffer) (auth : BitVec 32) (offset : ℕ) :
    Except SectionStatus (Option StreamNode) :=
  match p.extractSection (sectionDefinitionGuid b offset) with
  | some extract =>
    match extract (b.slice offset (nodeSize b offset)) with
    | .error _ => throw .protocolError
    | .ok (contents, extracted) =>
      return some (openSectionStreamEx contents (extractedStatus b auth offset extracted))
  | none =>
    if processingRequired b offset then return none
    else
      return some (openSectionStreamEx
        (b.slice (offset + dataOffset b offset) (sub32 (nodeSize b offset) (dataOffset b offset)))
        (untestedStatus b auth offset))

/-- The stream in a section, if it is an encapsulating one. -/
def encapsulatedStream (p : Protocols) (b : Buffer) (auth : BitVec 32) (offset : ℕ) :
    Except SectionStatus (Option StreamNode) :=
  if sectionType b offset = efiSectionCompression then
    return some (← compressedStream p b auth offset)
  else if sectionType b offset = efiSectionGuidDefined then guidedStream p b auth offset
  else return none

def createChildNode (p : Protocols) (b : Buffer) (auth : BitVec 32) (offset : ℕ) :
    Except SectionStatus ChildNode := do
  return {
    type := sectionType b offset
    size := nodeSize b offset
    offsetInStream := offset
    encapsulatedStream := ← encapsulatedStream p b auth offset }

/-! ### FindChildNode -/

/-- The section that is looked for. -/
structure Query where
  type : ℕ
  definitionGuid : Option Guid

def childIsType (b : Buffer) (child : ChildNode) (q : Query) : Bool :=
  if q.type = efiSectionAll then true
  else if child.type ≠ q.type then false
  else if q.type ≠ efiSectionGuidDefined then true
  else
    match q.definitionGuid with
    | none => true
    | some guid => sectionDefinitionGuid b child.offsetInStream = guid

/-- A section of a stream: the buffer, its authentication status and the offset. -/
structure Section where
  buffer : Buffer
  authenticationStatus : BitVec 32
  offset : ℕ

/-- What `FindChildNode` returns. -/
inductive Found
  | child (found : Section)
  | error (status : SectionStatus)

/-- The result of a search: what was found, what is left of `SectionInstance`, and the node. -/
structure Searched (α : Type) where
  found : Found
  count : ℕ
  node : α

/-- The node is left with other children. -/
def Searched.map {α β : Type} (f : α → β) (r : Searched α) : Searched β :=
  ⟨r.found, r.count, f r.node⟩

abbrev Children := List ChildNode

def nextChildOffset (child : ChildNode) : ℕ :=
  let next := u32 (u32 (child.offsetInStream + child.size) + 3)
  next - next % 4

/-- What follows the search in the stream of a child: `next` goes on with the child as it is left,
the error status and the instance. -/
def afterEncapsulated (child : ChildNode) (rest : Children)
    (next : ChildNode → SectionStatus → ℕ → Except Halt (Searched Children))
    (r : Searched StreamNode) : Except Halt (Searched Children) :=
  let child := { child with encapsulatedStream := some r.node }
  if r.count = 0 then
    match r.found with
    | .child _ => return ⟨r.found, 0, child :: rest⟩
    | .error _ => throw .assert
  else
    match r.found with
    | .child _ => next child .success r.count
    | .error status => next child status r.count

/-- The search in the stream of a child. -/
def searchEncapsulated (find : StreamNode → ℕ → Except Halt (Searched StreamNode)) (q : Query)
    (child : ChildNode) (rest : Children) (error : SectionStatus) (count : ℕ)
    (next : ChildNode → SectionStatus → ℕ → Except Halt (Searched Children)) :
    Except Halt (Searched Children) :=
  match child.encapsulatedStream with
  | some stream => find stream count >>= afterEncapsulated child rest next
  | none =>
    if child.type = efiSectionGuidDefined ∧ q.type ≠ efiSectionGuidDefined then
      next child .protocolError count
    else next child error count

/-- The step from a child to the next one, which is parsed if it has not been. -/
def searchNext (p : Protocols) (b : Buffer) (auth : BitVec 32) (rest : Children)
    (search : ChildNode → Children → SectionStatus → ℕ → Except Halt (Searched Children))
    (child : ChildNode) (error : SectionStatus) (count : ℕ) : Except Halt (Searched Children) :=
  match rest with
  | next :: rest => (search next rest error count).map (Searched.map (child :: ·))
  | [] =>
    if nextChildOffset child ≤ sub64 b.length commonHeaderSize then
      match createChildNode p b auth (nextChildOffset child) with
      | .error status => return ⟨.error status, count, [child]⟩
      | .ok next => (search next [] error count).map (Searched.map (child :: ·))
    else if error.isError then return ⟨.error error, count, [child]⟩
    else throw .assert

mutual

def findChildNode (p : Protocols) (q : Query) :
    ℕ → StreamNode → ℕ → Except Halt (Searched StreamNode)
  | 0, _, _ => throw .loop
  | fuel + 1, .mk b auth children, count =>
    if b.length = 0 then return ⟨.error .notFound, count, .mk b auth children⟩
    else
      match children with
      | child :: rest =>
        (searchChildren p q fuel b auth child rest .notFound count).map (Searched.map (.mk b auth))
      | [] =>
        -- there is no first node in a stream that is shorter than a header
        if b.length < commonHeaderSize then throw .fault
        else
          match createChildNode p b auth 0 with
          | .error status => return ⟨.error status, count, .mk b auth []⟩
          | .ok child =>
            (searchChildren p q fuel b auth child [] .notFound count).map
              (Searched.map (.mk b auth))

/-- The loop of `FindChildNode` from a child on. -/
def searchChildren (p : Protocols) (q : Query) : ℕ → Buffer → BitVec 32 → ChildNode → Children →
    SectionStatus → ℕ → Except Halt (Searched Children)
  | 0, _, _, _, _, _, _ => throw .loop
  | fuel + 1, b, auth, child, rest, error, count =>
    let count' := if childIsType b child q then sub64 count 1 else count
    if childIsType b child q ∧ count' = 0 then
      return ⟨.child ⟨b, auth, child.offsetInStream⟩, 0, child :: rest⟩
    else
      searchEncapsulated (findChildNode p q fuel) q child rest error count'
        (searchNext p b auth rest (searchChildren p q fuel b auth))

end

/-! ### GetSection -/

/-- The parameters of `GetSection`; `buffer` is the size of the caller's buffer if there is one. -/
structure Request where
  /-- The type and the GUID; the whole stream is meant if there is no type. -/
  type : Option ℕ
  definitionGuid : Option Guid
  sectionInstance : ℕ
  buffer : Option ℕ
  isFfs3Fv : Bool

/-- What a successful call returns. -/
structure Reply where
  status : SectionStatus
  bytes : List UInt8
  bufferSize : ℕ
  authenticationStatus : BitVec 32
deriving DecidableEq

/-- Copy the section to the buffer. -/
def copySection (buffer : Option ℕ) (b : Buffer) (offset copySize : ℕ) (auth : BitVec 32) : Reply :=
  match buffer with
  | some size =>
    if size < copySize then ⟨.warnBufferTooSmall, bytesAt b.byte offset size, copySize, auth⟩
    else ⟨.success, bytesAt b.byte offset copySize, copySize, auth⟩
  | none => ⟨.success, bytesAt b.byte offset copySize, copySize, auth⟩

/-- The section that was found. -/
def returnSection (request : Request) (found : Section) :
    Except Halt (Except SectionStatus Reply) :=
  if IsSection2 found.buffer found.offset then
    if section2Size found.buffer found.offset ≤ 0x00FFFFFF then throw .assert
    else if ¬ request.isFfs3Fv then return .error .notFound
    else
      return .ok (copySection request.buffer found.buffer (found.offset + 8)
        (sub64 (section2Size found.buffer found.offset) 8) found.authenticationStatus)
  else
    return .ok (copySection request.buffer found.buffer (found.offset + 4)
      (sub64 (sectionSize found.buffer found.offset) 4) found.authenticationStatus)

/-- `GetSection` on a stream: the result and the stream as it is left. -/
def getSection (p : Protocols) (fuel : ℕ) (request : Request) (stream : StreamNode) :
    Except Halt (Except SectionStatus Reply × StreamNode) :=
  match request.type with
  | none =>
    return (.ok (copySection request.buffer stream.buffer 0 stream.buffer.length
      stream.authenticationStatus), stream)
  | some type => do
    let r ← findChildNode p ⟨type, request.definitionGuid⟩ fuel stream
      (u64 (request.sectionInstance + 1))
    match r.found with
    | .error status => return (.error status, r.node)
    | .child found => return (← returnSection request found, r.node)

/-- A sequence of calls on a stream. -/
def getSections (p : Protocols) (fuel : ℕ) :
    List Request → StreamNode → Except Halt (List (Except SectionStatus Reply))
  | [], _ => return []
  | request :: requests, stream => do
    let (reply, stream') ← getSection p fuel request stream
    return reply :: (← getSections p fuel requests stream')

end Edk2.SectionExtraction
