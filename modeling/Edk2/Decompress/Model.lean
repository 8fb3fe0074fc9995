import Edk2.Base

/-!
# The decompression library

`BaseUefiDecompressLib.c`: the UEFI algorithm (version 1) and the Tiano algorithm (version 2). The
arrays of `SCRATCH_DATA` are functions, and every access to one of them checks its declared size.
Code lengths, tables and links all come from the compressed data. A walk along links that does not
come to its end is cut off when it has taken more steps than there are nodes.
-/

namespace Edk2.Decompress

/-- The results of `UINT16` and `UINT32` arithmetic. -/
def u16 (n : ℕ) : ℕ := n % 2 ^ 16

def u32 (n : ℕ) : ℕ := n % 2 ^ 32

abbrev bitBufSiz : ℕ := 32
abbrev maxMatch : ℕ := 256
abbrev threshold : ℕ := 3
abbrev codeBit : ℕ := 16
abbrev badTable : ℕ := 0xFFFF
abbrev nc : ℕ := 0xFF + maxMatch + 2 - threshold
abbrev cBit : ℕ := 9
abbrev maxPBit : ℕ := 5
abbrev tBit : ℕ := 5
abbrev maxNp : ℕ := 2 ^ maxPBit - 1
abbrev nt : ℕ := codeBit + 3
abbrev npt : ℕ := if nt > maxNp then nt else maxNp

/-- The size of `mLeft` and `mRight`. -/
abbrev nodes : ℕ := 2 * nc - 1

/-- Why a call does not come to its end. -/
inductive Failure
  /-- An access outside the declared size of an array. -/
  | bounds
  /-- A loop that does not end. -/
  | hang
deriving DecidableEq, Repr

/-- `Array[Index] = Value`. -/
def store (array : ℕ → ℕ) (index value : ℕ) : ℕ → ℕ :=
  fun i => if i = index then value else array i

lemma store_apply (array : ℕ → ℕ) (index value i : ℕ) :
    store array index value i = if i = index then value else array i := rfl

@[simp] lemma store_self (array : ℕ → ℕ) (index value : ℕ) :
    store array index value index = value := if_pos rfl

lemma store_of_ne {array : ℕ → ℕ} {index value i : ℕ} (h : i ≠ index) :
    store array index value i = array i := if_neg h

lemma store_eq_self (array : ℕ → ℕ) (index : ℕ) : store array index (array index) = array := by
  grind [store_apply]

/-! ### Tables of codes -/

/-- The links of the trees and the table that `MakeTable` builds. -/
structure Tables where
  mLeft : ℕ → ℕ
  mRight : ℕ → ℕ
  table : ℕ → ℕ

/-- What `Pointer` can point to. -/
inductive Slot
  | table (index : ℕ)
  | left (index : ℕ)
  | right (index : ℕ)
deriving DecidableEq, Repr

def Slot.InBounds (tableBits : ℕ) : Slot → Prop
  | .table index => index < 2 ^ tableBits
  | .left index => index < nodes
  | .right index => index < nodes

instance (tableBits : ℕ) : DecidablePred (Slot.InBounds tableBits)
  | .table index => inferInstanceAs (Decidable (index < 2 ^ tableBits))
  | .left index => inferInstanceAs (Decidable (index < nodes))
  | .right index => inferInstanceAs (Decidable (index < nodes))

def Tables.get (t : Tables) : Slot → ℕ
  | .table index => t.table index
  | .left index => t.mLeft index
  | .right index => t.mRight index

def Tables.set (t : Tables) (value : ℕ) : Slot → Tables
  | .table index => { t with table := store t.table index value }
  | .left index => { t with mLeft := store t.mLeft index value }
  | .right index => { t with mRight := store t.mRight index value }

abbrev TableM := EStateM Failure Tables

/-- `*Pointer`. -/
def readSlot (tableBits : ℕ) (slot : Slot) : TableM ℕ := do
  let t ← get
  if slot.InBounds tableBits then return t.get slot else throw .bounds

/-- `*Pointer = Value`. -/
def writeSlot (tableBits : ℕ) (slot : Slot) (value : ℕ) : TableM Unit := do
  let t ← get
  if slot.InBounds tableBits then set (t.set value slot) else throw .bounds

/-- `Table[Index] = Value` for each `Index` from `lo` to below `hi`. -/
def fillTable (tableBits lo hi value : ℕ) : TableM Unit := do
  let t ← get
  if lo < hi → hi ≤ 2 ^ tableBits then
    set { t with table := fun i => if lo ≤ i ∧ i < hi then value else t.table i }
  else throw .bounds

/-- `Count[Len]`. -/
def count (bitLen : ℕ → ℕ) (numOfChar len : ℕ) : ℕ :=
  (List.range numOfChar).countP fun i => bitLen i = len

/-- `Start[Index]`, the first code of that length as a number of 16 bits. -/
def start (bitLen : ℕ → ℕ) (numOfChar : ℕ) : ℕ → ℕ
  | 0 => 0
  | 1 => 0
  | index + 2 =>
    u16 (start bitLen numOfChar (index + 1) +
      count bitLen numOfChar (index + 1) * 2 ^ (16 - (index + 1)))

/-- `Start` after the loop that shifts it by `JuBits`. -/
def scaledStart (bitLen : ℕ → ℕ) (numOfChar tableBits index : ℕ) : ℕ :=
  if 1 ≤ index ∧ index ≤ tableBits then start bitLen numOfChar index / 2 ^ (16 - tableBits)
  else start bitLen numOfChar index

/-- `Weight[Index]`. -/
def weight (tableBits index : ℕ) : ℕ :=
  if index = 0 then 0
  else if index ≤ tableBits then 2 ^ (tableBits - index)
  else 2 ^ (16 - index)

/-- A new node is linked in at an empty slot, if there is one left; the next free node. -/
def growSlot (tableBits : ℕ) (slot : Slot) (avail : ℕ) : TableM ℕ := do
  let value ← readSlot tableBits slot
  if value = 0 ∧ avail < nodes then do
    writeSlot tableBits (.left avail) 0
    writeSlot tableBits (.right avail) 0
    writeSlot tableBits slot avail
    return avail + 1
  else return avail

/-- The slot one bit further down. -/
def descend (tableBits mask index3 : ℕ) (slot : Slot) : TableM Slot := do
  let value ← readSlot tableBits slot
  if value < nodes then
    if index3 &&& mask ≠ 0 then return .right value else return .left value
  else return slot

/-- `while (Index != 0)`: go down to the slot of a code; that slot and the next free node. -/
def slotLoop (tableBits mask : ℕ) : ℕ → ℕ → Slot → ℕ → TableM (Slot × ℕ)
  | 0, _, slot, avail => return (slot, avail)
  | index + 1, index3, slot, avail => do
    let avail ← growSlot tableBits slot avail
    let slot ← descend tableBits mask index3 slot
    slotLoop tableBits mask index (u16 (index3 * 2)) slot avail

/-- Enter a code that is longer than `tableBits`; the next free node. -/
def enterLong (tableBits char len code avail : ℕ) : TableM ℕ := do
  let (slot, avail) ← slotLoop tableBits (2 ^ (15 - tableBits)) (len - tableBits) code
    (.table (code / 2 ^ (16 - tableBits))) avail
  writeSlot tableBits slot char
  return avail

/-- The codes of the characters, one after the other; `next` is the array `Start`. -/
def charLoop (bitLen : ℕ → ℕ) (tableBits : ℕ) : List ℕ → (ℕ → ℕ) → ℕ → TableM ℕ
  | [], _, _ => return 0
  | char :: rest, next, avail =>
    let len := bitLen char
    let nextCode := u16 (next len + weight tableBits len)
    if len = 0 ∨ len ≥ 17 then charLoop bitLen tableBits rest next avail
    else if len ≤ tableBits then
      if next len ≥ nextCode ∨ nextCode > 2 ^ tableBits then return badTable
      else do
        fillTable tableBits (next len) nextCode char
        charLoop bitLen tableBits rest (store next len nextCode) avail
    else do
      let avail ← enterLong tableBits char len (next len) avail
      charLoop bitLen tableBits rest (store next len nextCode) avail

/-- Clear the part of the table that belongs to longer codes. -/
def clearLong (bitLen : ℕ → ℕ) (numOfChar tableBits : ℕ) : TableM Unit :=
  let index := start bitLen numOfChar (tableBits + 1) / 2 ^ (16 - tableBits)
  if index ≠ 0 ∧ index < 2 ^ tableBits then fillTable tableBits index (2 ^ tableBits) 0
  else return ()

/-- `MakeTable` for the array `BitLen` of the given size. -/
@[irreducible] def makeTable (numOfChar : ℕ) (bitLen : ℕ → ℕ) (size tableBits : ℕ) : TableM ℕ :=
  if size < numOfChar then throw .bounds
  else if (List.range numOfChar).any fun i => bitLen i > 16 then return badTable
  else if start bitLen numOfChar 17 ≠ 0 then return badTable
  else do
    clearLong bitLen numOfChar tableBits
    charLoop bitLen tableBits (List.range numOfChar) (scaledStart bitLen numOfChar tableBits)
      numOfChar

/-! ### The scratch data -/

/-- A walk down a tree. -/
structure Walk where
  mLeft : ℕ → ℕ
  mRight : ℕ → ℕ
  mBitBuf : ℕ
  mask : ℕ
  /-- The node or symbol that the table gives. -/
  entry : ℕ
  /-- Below it are the symbols. -/
  bound : ℕ

/-- `SCRATCH_DATA` less `mDstBase`. The last three fields observe a run, nothing reads them. -/
structure Scratch where
  mSrcBase : List UInt8
  mOutBuf : ℕ
  mInBuf : ℕ
  mBitCount : ℕ
  mBitBuf : ℕ
  mSubBitBuf : ℕ
  mBlockSize : ℕ
  mCompSize : ℕ
  mOrigSize : ℕ
  mBadTableFlag : ℕ
  mLeft : ℕ → ℕ
  mRight : ℕ → ℕ
  mCLen : ℕ → ℕ
  mPTLen : ℕ → ℕ
  mCTable : ℕ → ℕ
  mPTTable : ℕ → ℕ
  mPBit : ℕ
  /-- The table was built from the codes of the present set. -/
  ownC : Bool
  ownPT : Bool
  /-- The walks that start in a table that was not. -/
  stale : List Walk

abbrev DecM := EStateM Failure Scratch

/-- `SetMem (Sd, sizeof (SCRATCH_DATA), 0)`. -/
def clearedScratch : Scratch where
  mSrcBase := []
  mOutBuf := 0
  mInBuf := 0
  mBitCount := 0
  mBitBuf := 0
  mSubBitBuf := 0
  mBlockSize := 0
  mCompSize := 0
  mOrigSize := 0
  mBadTableFlag := 0
  mLeft := fun _ => 0
  mRight := fun _ => 0
  mCLen := fun _ => 0
  mPTLen := fun _ => 0
  mCTable := fun _ => 0
  mPTTable := fun _ => 0
  mPBit := 0
  ownC := true
  ownPT := true
  stale := []

/-! ### Bits -/

/-- The next byte of the source, or zero bits when there is none. -/
def nextByte : DecM Unit := do
  let s ← get
  if s.mCompSize > 0 then
    match s.mSrcBase[s.mInBuf]? with
    | some byte =>
      set { s with
        mCompSize := s.mCompSize - 1, mInBuf := s.mInBuf + 1, mSubBitBuf := byte.toNat
        mBitCount := 8 }
    | none => throw .bounds
  else set { s with mSubBitBuf := 0, mBitCount := 8 }

/-- `while (NumOfBits > Sd->mBitCount)`; the bits that are still to be read. -/
def fillLoop : ℕ → ℕ → DecM ℕ
  | 0, _ => throw .hang
  | fuel + 1, numOfBits => do
    let s ← get
    if numOfBits > s.mBitCount then do
      let rest := numOfBits - s.mBitCount
      set { s with mBitBuf := s.mBitBuf ||| u32 (s.mSubBitBuf * 2 ^ rest) }
      nextByte
      fillLoop fuel rest
    else return numOfBits

/-- `FillBuf`. Each byte of the source gives eight bits, the first iteration may have none. -/
def fillBuf (numOfBits : ℕ) : DecM Unit := do
  modify fun s => { s with mBitBuf := u32 (s.mBitBuf * 2 ^ numOfBits) }
  let rest ← fillLoop (numOfBits + 2) numOfBits
  modify fun s =>
    { s with
      mBitCount := s.mBitCount - rest
      mBitBuf := s.mBitBuf ||| s.mSubBitBuf / 2 ^ (s.mBitCount - rest) }

def getBits (numOfBits : ℕ) : DecM ℕ := do
  let s ← get
  fillBuf numOfBits
  return s.mBitBuf / 2 ^ (bitBufSiz - numOfBits)

/-! ### Walks -/

/-- The next node of a walk. -/
def child (mLeft mRight : ℕ → ℕ) (mBitBuf mask value : ℕ) : ℕ :=
  if mBitBuf &&& mask ≠ 0 then mRight value else mLeft value

/-- `while (Value >= Bound)`, from a table entry. -/
def walkLoop (bound : ℕ) : ℕ → ℕ → ℕ → DecM ℕ
  | 0, _, value => if value ≥ bound then throw .hang else return value
  | fuel + 1, mask, value =>
    if value ≥ bound then
      if value < nodes then do
        let s ← get
        walkLoop bound fuel (mask / 2) (child s.mLeft s.mRight s.mBitBuf mask value)
      else throw .bounds
    else return value

/-- The symbol that the next bits stand for; `own` says whether the table is of the present set.
When the bits are used up the walk follows left links only. -/
def walk (own : Bool) (table : ℕ → ℕ) (tableBits bound : ℕ) : DecM ℕ := do
  let s ← get
  let index := s.mBitBuf / 2 ^ (bitBufSiz - tableBits)
  let mask := 2 ^ (bitBufSiz - 1 - tableBits)
  if index < 2 ^ tableBits then do
    modify fun s =>
      if own then s
      else
        { s with stale := ⟨s.mLeft, s.mRight, s.mBitBuf, mask, table index, bound⟩ :: s.stale }
    walkLoop bound (bitBufSiz + nodes) mask (table index)
  else throw .bounds

def walkPT (bound : ℕ) : DecM ℕ := do
  let s ← get
  walk s.ownPT s.mPTTable 8 bound

def walkC : DecM ℕ := do
  let s ← get
  walk s.ownC s.mCTable 12 nc

def readPTLenAt (index : ℕ) : DecM ℕ := do
  let s ← get
  if index < npt then return s.mPTLen index else throw .bounds

def writePTLenAt (index value : ℕ) : DecM Unit :=
  if index < npt then
    modify fun s => { s with mPTLen := store s.mPTLen index value }
  else throw .bounds

def readCLenAt (index : ℕ) : DecM ℕ := do
  let s ← get
  if index < nc then return s.mCLen index else throw .bounds

def writeCLenAt (index value : ℕ) : DecM Unit :=
  if index < nc then
    modify fun s => { s with mCLen := store s.mCLen index value }
  else throw .bounds

/-! ### Reading the code lengths -/

/-- Run on the links and `mPTTable`. -/
def onPT {α : Type} (m : TableM α) : DecM α := fun s =>
  match m ⟨s.mLeft, s.mRight, s.mPTTable⟩ with
  | .ok a t => .ok a { s with mLeft := t.mLeft, mRight := t.mRight, mPTTable := t.table }
  | .error e t => .error e { s with mLeft := t.mLeft, mRight := t.mRight, mPTTable := t.table }

/-- Run on the links and `mCTable`. -/
def onC {α : Type} (m : TableM α) : DecM α := fun s =>
  match m ⟨s.mLeft, s.mRight, s.mCTable⟩ with
  | .ok a t => .ok a { s with mLeft := t.mLeft, mRight := t.mRight, mCTable := t.table }
  | .error e t => .error e { s with mLeft := t.mLeft, mRight := t.mRight, mCTable := t.table }

/-- Whether any symbol of a set has a code. -/
def hasCode (numOfChar : ℕ) (bitLen : ℕ → ℕ) : Bool :=
  (List.range numOfChar).any fun i => bitLen i ≠ 0

/-- The ones of a length of seven or more, from the bit `2 ^ (k - 1)` on. -/
def onesLoop (mBitBuf : ℕ) : ℕ → ℕ → ℕ
  | 0, charC => charC
  | k + 1, charC => if 2 ^ k &&& mBitBuf ≠ 0 then onesLoop mBitBuf k (charC + 1) else charC

/-- A code length of the Extra Set or the Position Set. -/
def lengthCode (mBitBuf : ℕ) : ℕ :=
  let charC := mBitBuf / 2 ^ (bitBufSiz - 3)
  if charC = 7 then onesLoop mBitBuf (bitBufSiz - 3) charC else charC

/-- `while ((INT16) (--CharC) >= 0 && Index < NPT)`. -/
def zeroPTLoop : ℕ → ℕ → DecM ℕ
  | 0, index => return index
  | charC + 1, index =>
    if index < npt then do
      writePTLenAt index 0
      zeroPTLoop charC (index + 1)
    else return index

/-- The zero lengths after the special symbol. -/
def specialZeros (special index : ℕ) : DecM ℕ :=
  if index = special then do
    let charC ← getBits 2
    zeroPTLoop charC index
  else return index

/-- `while (Index < Number && Index < NPT)`: each iteration raises `index`. -/
def readPTLoop (number special : ℕ) : ℕ → ℕ → DecM ℕ
  | 0, index => return index
  | fuel + 1, index =>
    if index < number ∧ index < npt then do
      let s ← get
      let charC := lengthCode s.mBitBuf
      fillBuf (if charC < 7 then 3 else charC - 3)
      writePTLenAt index (charC % 2 ^ 8)
      let index ← specialZeros special (index + 1)
      readPTLoop number special fuel index
    else return index

/-- The set has a single symbol that takes no bits. -/
def singlePT (nn nbit : ℕ) : DecM ℕ := do
  let charC ← getBits nbit
  modify fun s =>
    { s with
      mPTTable := fun _ => charC
      mPTLen := fun i => if i < nn then 0 else s.mPTLen i
      ownPT := decide (charC < nn) }
  return 0

/-- The set has a code for each of its symbols. -/
def severalPT (nn number special : ℕ) : DecM ℕ := do
  let index ← readPTLoop number special npt 0
  modify fun s =>
    { s with mPTLen := fun i => if index ≤ i ∧ i < nn ∧ i < npt then 0 else s.mPTLen i }
  let s ← get
  let status ← onPT (makeTable nn s.mPTLen npt 8)
  modify fun s => { s with ownPT := decide (status = 0) && hasCode nn s.mPTLen }
  return status

def readPTLen (nn nbit special : ℕ) : DecM ℕ := do
  let number ← getBits nbit
  if number = 0 then singlePT nn nbit else severalPT nn number special

/-- `while ((INT16) (--CharC) >= 0 && Index < NC)`. -/
def zeroCLoop : ℕ → ℕ → DecM ℕ
  | 0, index => return index
  | charC + 1, index =>
    if index < nc then do
      writeCLenAt index 0
      zeroCLoop charC (index + 1)
    else return index

/-- The number of zero lengths that the first three symbols of the Extra Set stand for. -/
def zeroRun (charC : ℕ) : DecM ℕ :=
  if charC = 0 then return 1
  else if charC = 1 then do
    let bits ← getBits 4
    return bits + 3
  else do
    let bits ← getBits cBit
    return bits + 20

/-- What a symbol of the Extra Set says about the lengths from `index` on. -/
def enterCLen (charC index : ℕ) : DecM ℕ :=
  if charC ≤ 2 then do
    let run ← zeroRun charC
    zeroCLoop run index
  else do
    writeCLenAt index (charC - 2)
    return index + 1

/-- `while (Index < Number && Index < NC)`: each iteration raises `index`. -/
def readCLoop (number : ℕ) : ℕ → ℕ → DecM ℕ
  | 0, index => return index
  | fuel + 1, index =>
    if index < number ∧ index < nc then do
      let charC ← walkPT nt
      let len ← readPTLenAt charC
      fillBuf len
      let index ← enterCLen charC index
      readCLoop number fuel index
    else return index

/-- The set has a single symbol that takes no bits. -/
def singleC : DecM Unit := do
  let charC ← getBits cBit
  modify fun s =>
    { s with mCLen := fun _ => 0, mCTable := fun _ => charC, ownC := decide (charC < nc) }

/-- The set has a code for each of its symbols; the status of `MakeTable` is not looked at. -/
def severalC (number : ℕ) : DecM Unit := do
  let index ← readCLoop number nc 0
  modify fun s => { s with mCLen := fun i => if index ≤ i ∧ i < nc then 0 else s.mCLen i }
  let s ← get
  let status ← onC (makeTable nc s.mCLen nc 12)
  modify fun s => { s with ownC := decide (status = 0) && hasCode nc s.mCLen }

def readCLen : DecM Unit := do
  let number ← getBits cBit
  if number = 0 then singleC else severalC number

/-! ### Decoding -/

/-- Read the code lengths of the Position Set; whether the table is good. -/
def readPositions : DecM Bool := do
  let s ← get
  let flag ← readPTLen maxNp s.mPBit 0xFFFF
  modify fun s => { s with mBadTableFlag := flag }
  return flag = 0

/-- Start a new block; whether its tables are good. -/
def startBlock : DecM Bool := do
  let blockSize ← getBits 16
  modify fun s => { s with mBlockSize := blockSize }
  let flag ← readPTLen nt tBit 3
  modify fun s => { s with mBadTableFlag := flag }
  if flag ≠ 0 then return false
  else do
    readCLen
    readPositions

/-- Start a new block if the present one is used up; whether the tables are good. -/
def checkBlock : DecM Bool := do
  let s ← get
  if s.mBlockSize = 0 then startBlock else return true

/-- `DecodeC`; `0` if a table is bad. -/
def decodeC : DecM ℕ := do
  let good ← checkBlock
  if good then do
    modify fun s => { s with mBlockSize := u16 (s.mBlockSize + (2 ^ 16 - 1)) }
    let index2 ← walkC
    let len ← readCLenAt index2
    fillBuf len
    return index2
  else return 0

/-- The position that a symbol of the Position Set and the bits behind it stand for. -/
def position (val : ℕ) : DecM ℕ :=
  if val > 1 then do
    let bits ← getBits (val - 1)
    return u32 (2 ^ (val - 1) + bits)
  else return val

def decodeP : DecM ℕ := do
  let val ← walkPT maxNp
  let len ← readPTLenAt val
  fillBuf len
  position val

/-- The destination buffer; `written` observes the indices of the bytes written. -/
structure Output where
  mDstBase : ℕ → ℕ
  written : List ℕ

/-- `Sd->mDstBase[Sd->mOutBuf++] = Value`. -/
def putByte (out : Output) (value : ℕ) : DecM Output := do
  let s ← get
  if s.mOutBuf < s.mOrigSize then do
    set { s with mOutBuf := s.mOutBuf + 1 }
    return ⟨store out.mDstBase s.mOutBuf value, s.mOutBuf :: out.written⟩
  else throw .bounds

/-- `Sd->mDstBase[DataIdx]`. -/
def readByte (out : Output) (dataIdx : ℕ) : DecM ℕ := do
  let s ← get
  if dataIdx < s.mOrigSize then return out.mDstBase dataIdx else throw .bounds

/-- Copy one byte. -/
def copyByte (dataIdx : ℕ) (out : Output) : DecM Output := do
  let byte ← readByte out dataIdx
  putByte out byte

/-- `while ((INT16) (BytesRemain) >= 0)`; whether the decoder is done. -/
def copyLoop : ℕ → ℕ → Output → DecM (Bool × Output)
  | 0, _, out => return (false, out)
  | bytesRemain + 1, dataIdx, out => do
    let s ← get
    if s.mOutBuf ≥ s.mOrigSize then return (true, out)
    else if dataIdx ≥ s.mOrigSize then do
      set { s with mBadTableFlag := badTable }
      return (true, out)
    else do
      let out ← copyByte dataIdx out
      copyLoop bytesRemain (u32 (dataIdx + 1)) out

/-- Process a pointer; whether the decoder is done. -/
def putString (charC : ℕ) (out : Output) : DecM (Bool × Output) := do
  let s ← get
  let pos ← decodeP
  let result ← copyLoop (charC - (2 ^ 8 - threshold)) (u32 (s.mOutBuf + 2 ^ 33 - pos - 1)) out
  let s ← get
  return (result.1 || decide (s.mOutBuf ≥ s.mOrigSize), result.2)

/-- Process an original character; whether the decoder is done. -/
def putChar (charC : ℕ) (out : Output) : DecM (Bool × Output) := do
  let s ← get
  if s.mOutBuf ≥ s.mOrigSize then return (true, out)
  else do
    let out ← putByte out charC
    return (false, out)

/-- Process a code; whether the decoder is done. -/
def process (charC : ℕ) (out : Output) : DecM (Bool × Output) := do
  let s ← get
  if s.mBadTableFlag ≠ 0 then return (true, out)
  else if charC < 256 then putChar charC out
  else putString charC out

/-- `for (;;)`: each iteration that is not the last one writes a byte. -/
def decodeLoop : ℕ → Output → DecM Output
  | 0, _ => throw .hang
  | fuel + 1, out => do
    let charC ← decodeC
    let (done, out) ← process charC out
    if done then return out else decodeLoop fuel out

def decode (out : Output) : DecM Output := do
  let s ← get
  decodeLoop (s.mOrigSize + 1) out

/-! ### The library functions -/

/-- A number of four bytes, the lowest one first; bytes that are not there are not read. -/
def readUnaligned32 (source : List UInt8) (offset : ℕ) : ℕ :=
  (source.getD offset 0).toNat + (source.getD (offset + 1) 0).toNat * 2 ^ 8 +
    (source.getD (offset + 2) 0).toNat * 2 ^ 16 + (source.getD (offset + 3) 0).toNat * 2 ^ 24

/-- `UefiDecompressGetInfo`: the size of the destination, or `none` for an invalid source. The size
of the source buffer is the length of the list. -/
def uefiDecompressGetInfo (source : List UInt8) : Option ℕ :=
  let compressedSize := readUnaligned32 source 0
  if source.length < 8 then none
  else if source.length < u32 (compressedSize + 8) ∨ u32 (compressedSize + 8) < 8 then none
  else some (readUnaligned32 source 4)

/-- `Version`: 1 for the UEFI algorithm, 2 for the Tiano algorithm. -/
inductive Version
  | uefi
  | tiano
deriving DecidableEq, Repr

def Version.mPBit : Version → ℕ
  | .uefi => 4
  | .tiano => 5

/-- The scratch data that the decoder starts with. -/
def preparedScratch (source : List UInt8) (version : Version) : Scratch :=
  { clearedScratch with
    mPBit := version.mPBit
    mSrcBase := (source.drop 8).take (readUnaligned32 source 0)
    mCompSize := readUnaligned32 source 0
    mOrigSize := readUnaligned32 source 4 }

/-- Decompress a source that is not empty. -/
def decompressSource (source : List UInt8) (destination : ℕ → ℕ) (version : Version) :
    DecM (EfiStatus × Output) := do
  set (preparedScratch source version)
  fillBuf bitBufSiz
  let out ← decode ⟨destination, []⟩
  let s ← get
  return (if s.mBadTableFlag ≠ 0 then .invalidParameter else .success, out)

/-- `UefiTianoDecompress`; the observation of walks starts anew. -/
def uefiTianoDecompress (source : List UInt8) (destination : ℕ → ℕ) (version : Version) :
    DecM (EfiStatus × Output) := do
  modify fun s => { s with stale := [] }
  if readUnaligned32 source 4 = 0 then return (.success, ⟨destination, []⟩)
  else decompressSource source destination version

def uefiDecompress (source : List UInt8) (destination : ℕ → ℕ) : DecM (EfiStatus × Output) :=
  uefiTianoDecompress source destination .uefi

end Edk2.Decompress
