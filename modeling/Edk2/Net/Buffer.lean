import Edk2.Base

/-!
# Net buffers

`Library/DxeNetLib/NetBuffer.c`. A net buffer is an array of blocks; each block is a window
`[Head, Tail)` into a piece of memory from `BlockHead` to `BlockTail`. Pointers into a block are
offsets from its `BlockHead`, and the block carries the memory it points into. Lengths and sizes are
32-bit values and wrap around where the code adds or subtracts them; the number of blocks is a
natural number. Reference counts, the vector that owns the memory and the protocol data are left out.
-/

namespace Edk2.Net

structure NetBlockOp where
  /-- The memory that can be accessed from `BlockHead` on. -/
  memory : List UInt8
  blockTail : ℕ
  head : ℕ
  tail : ℕ
  size : ℕ
deriving DecidableEq, Repr

/-- `NET_BUF`; `BlockOpNum` is the length of the array. -/
structure NetBuf where
  blockOp : List NetBlockOp
  totalSize : ℕ
deriving DecidableEq, Repr

/-- `NET_FRAGMENT`: `bulk` is the memory from the pointer on. -/
structure NetFragment where
  len : ℕ
  bulk : List UInt8
deriving DecidableEq, Repr

structure NetBufQueue where
  bufList : List NetBuf
  bufSize : ℕ
  bufNum : ℕ
deriving DecidableEq, Repr

/-- What the pool answers to the allocations of one call. -/
structure Allocation where
  /-- The answer to `AllocatePool` for a block of data: nothing, or memory with whatever content it
  had before. -/
  block : Option (ℕ → UInt8)
  /-- `NetbufAllocStruct` succeeds. -/
  struct : Bool
  /-- The fragment table of `NetbufFromBufList` can be allocated. -/
  table : Bool

/-- The memory of a pool allocation. -/
def pool (size : ℕ) (content : ℕ → UInt8) : List UInt8 := (List.range size).map content

/-- `CopyMem` into a piece of memory, which has to hold what is written. -/
def copyMem (memory : List UInt8) (offset : ℕ) (data : List UInt8) : Except Halt (List UInt8) :=
  if offset + data.length ≤ memory.length then
    .ok (memory.take offset ++ data ++ memory.drop (offset + data.length))
  else .error .fault

/-- `NetbufSetBlockOp` (and `NetbufSetBlock`): a block that is full of data. -/
def netbufSetBlockOp (bulk : List UInt8) (len : ℕ) : NetBlockOp where
  memory := bulk
  blockTail := len
  head := 0
  tail := len
  size := len

/-! ### `NetbufGetByte` -/

/-- The loop of `NetbufGetByte` from the block with number `loop` on. -/
def getByteLoop (offset : ℕ) : List NetBlockOp → ℕ → ℕ → Option (ℕ × ℕ)
  | [], _, _ => none
  | op :: ops, loop, len =>
    if u32 (len + op.size) ≤ offset then getByteLoop offset ops (loop + 1) (u32 (len + op.size))
    else some (loop, op.head + sub32 offset len)

/-- `NetbufGetByte`: the block that holds the byte and the place of the byte in it. -/
def netbufGetByte (nbuf : NetBuf) (offset : ℕ) : Option (ℕ × ℕ) :=
  if nbuf.totalSize ≤ offset then none else getByteLoop offset nbuf.blockOp 0 0

/-! ### `NetbufGetFragment` -/

/-- The loop that looks for the first block with data, from the block with number `index` on:
that block's number and the value of `Cur`. -/
def findFirst (offset : ℕ) : List NetBlockOp → ℕ → ℕ → ℕ × ℕ
  | [], index, cur => (index, cur)
  | op :: ops, index, cur =>
    if offset < u32 (cur + op.size) then (index, cur)
    else findFirst offset ops (index + 1) (u32 (cur + op.size))

/-- The loop that looks for the last block with data: `Last` and `LastLen`, both zero if there is
no such block. -/
def findLast (stop : ℕ) : List NetBlockOp → ℕ → ℕ → ℕ × ℕ
  | [], _, _ => (0, 0)
  | op :: ops, index, cur =>
    if stop ≤ u32 (cur + op.size) then (index, sub32 stop cur)
    else findLast stop ops (index + 1) (u32 (cur + op.size))

/-- The blocks of the fragment: the first and the last one are special. -/
def fragmentBlocks (blockOp : List NetBlockOp) (op : NetBlockOp)
    (first firstSkip firstLen last lastLen : ℕ) : List NetBlockOp :=
  netbufSetBlockOp (op.memory.drop (op.head + firstSkip)) firstLen ::
    (((blockOp.drop (first + 1)).take (last - (first + 1))).map
        fun op => netbufSetBlockOp (op.memory.drop op.head) op.size) ++
      if first ≠ last then
        ((blockOp.drop last).take 1).map
          fun op => netbufSetBlockOp (op.memory.drop op.head) lastLen
      else []

/-- The block for the head space. -/
def headSpaceBlock (headSpace : ℕ) (content : ℕ → UInt8) : NetBlockOp :=
  { netbufSetBlockOp (pool headSpace content) headSpace with head := headSpace, size := 0 }

/-- The child buffer with its blocks, and with a block for the head space if there is any. -/
def childBuffer (allocation : Allocation) (headSpace len : ℕ) (blocks : List NetBlockOp) :
    Option NetBuf :=
  if !allocation.struct then none
  else if headSpace ≠ 0 then
    allocation.block.map fun content => ⟨headSpaceBlock headSpace content :: blocks, len⟩
  else some ⟨blocks, len⟩

def netbufGetFragment (allocation : Allocation) (nbuf : NetBuf) (offset len headSpace : ℕ) :
    Except Halt (Option NetBuf) :=
  if len = 0 ∨ nbuf.totalSize < u32 (offset + len) then .ok none
  else
    let (first, cur) := findFirst offset nbuf.blockOp 0 0
    match nbuf.blockOp[first]? with
    | none => .error .fault
    | some op =>
      let firstSkip := sub32 offset cur
      let restLen := sub32 op.size firstSkip
      let (last, lastLen) :=
        if restLen < len then
          findLast (u32 (offset + len)) (nbuf.blockOp.drop (first + 1)) (first + 1)
            (u32 (cur + op.size))
        else (first, len)
      let firstLen := if restLen < len then restLen else len
      if last < first then .error .assert
      else
        .ok (childBuffer allocation headSpace len
          (fragmentBlocks nbuf.blockOp op first firstSkip firstLen last lastLen))

/-! ### `NetbufFromExt` -/

/-- The variables of the loop that copies the header into the first block. -/
structure HeadCopy where
  firstBlock : List UInt8
  /-- What is left of the header. -/
  len : ℕ
  copied : ℕ
  totalLen : ℕ
  index : ℕ
  /-- The rest of a fragment that is copied in part. -/
  patch : Option NetFragment
deriving DecidableEq, Repr

/-- The loop that copies the header, from the fragment with number `copy.index` on. -/
def copyHeader (headSpace : ℕ) : List NetFragment → HeadCopy → Except Halt HeadCopy
  | [], copy => .ok copy
  | fragment :: fragments, copy =>
    if fragment.len ≤ copy.len then do
      let firstBlock ← copyMem copy.firstBlock (headSpace + copy.copied)
        (fragment.bulk.take fragment.len)
      let copy' := { copy with
        firstBlock := firstBlock
        len := copy.len - fragment.len
        copied := u32 (copy.copied + fragment.len)
        totalLen := u32 (copy.totalLen + fragment.len)
        index := copy.index + 1 }
      if copy'.len = 0 then return copy' else copyHeader headSpace fragments copy'
    else do
      let firstBlock ← copyMem copy.firstBlock (headSpace + copy.copied)
        (fragment.bulk.take copy.len)
      return { copy with
        firstBlock := firstBlock
        copied := u32 (copy.copied + copy.len)
        totalLen := u32 (copy.totalLen + copy.len)
        patch := some ⟨fragment.len - copy.len, fragment.bulk.drop copy.len⟩ }

/-- `HeadLen` after the check whether the header has to be consolidated at all. -/
def consolidated (ext : List NetFragment) (headLen : ℕ) : ℕ :=
  match ext with
  | [] => headLen
  | first :: rest => if headLen ≤ first.len ∨ rest = [] then 0 else headLen

/-- The first block with the head space and the header. -/
def headerBlock (headSpace : ℕ) (copy : HeadCopy) : NetBlockOp :=
  { netbufSetBlockOp copy.firstBlock (u32 (headSpace + copy.copied)) with
    head := headSpace, size := copy.copied }

/-- The blocks that remain after the header, and `TotalLen`. -/
def fragmentTable (fragments : List NetFragment) (totalLen : ℕ) : List NetBlockOp × ℕ :=
  (fragments.map fun fragment => netbufSetBlockOp fragment.bulk fragment.len,
    fragments.foldl (fun total fragment => u32 (total + fragment.len)) totalLen)

/-- The header is copied if it has to be consolidated. -/
def aggregateHeader (ext : List NetFragment) (headSpace headLen : ℕ) (content : ℕ → UInt8) :
    Except Halt HeadCopy :=
  let start : HeadCopy := ⟨pool (u32 (headLen + headSpace)) content, headLen, 0, 0, 0, none⟩
  if headLen ≠ 0 then copyHeader headSpace ext start else .ok start

/-- The fragment table with the rest of a fragment that is copied in part. -/
def patchedTable (ext : List NetFragment) (copy : HeadCopy) : List NetFragment :=
  match copy.patch with
  | none => ext
  | some rest => ext.set copy.index rest

/-- The buffer with the header and the blocks that remain. -/
def extBuffer (ext : List NetFragment) (headSpace headLen : ℕ) (copy : HeadCopy) : NetBuf :=
  let (blocks, totalLen) := fragmentTable ((patchedTable ext copy).drop copy.index) copy.totalLen
  ⟨if u32 (headLen + headSpace) ≠ 0 then headerBlock headSpace copy :: blocks else blocks, totalLen⟩

/-- `NetbufFromExt`, with the fragment table it leaves: the fragment that is patched is restored,
but not if there is no memory for the buffer. -/
def netbufFromExt (allocation : Allocation) (ext : List NetFragment) (headSpace headLen : ℕ) :
    Except Halt (Option NetBuf × List NetFragment) :=
  if ext = [] then .error .assert
  else
    let headLen := consolidated ext headLen
    match (if headSpace ≠ 0 ∨ headLen ≠ 0 then allocation.block else some fun _ => 0) with
    | none => .ok (none, ext)
    | some content => do
      let copy ← aggregateHeader ext headSpace headLen content
      if !allocation.struct then return (none, patchedTable ext copy)
      else return (some (extBuffer ext headSpace headLen copy), ext)

/-! ### `NetbufFromBufList` -/

/-- The fragments that `NetbufFromBufList` collects: one for every block that is not empty. -/
def bufListFragments (bufList : List NetBuf) : List NetFragment :=
  ((bufList.flatMap fun nbuf => nbuf.blockOp).filter fun op => op.size ≠ 0).map
    fun op => ⟨op.size, op.memory.drop op.head⟩

def netbufFromBufList (allocation : Allocation) (bufList : List NetBuf)
    (headSpace headerLen : ℕ) : Except Halt (Option NetBuf) :=
  if !allocation.table then .ok none
  else (netbufFromExt allocation (bufListFragments bufList) headSpace headerLen).map Prod.fst

/-! ### `NetbufAllocSpace` -/

/-- `NET_HEADSPACE`. -/
def NetBlockOp.headspace (op : NetBlockOp) : ℕ := op.head

/-- `NET_TAILSPACE`. -/
def NetBlockOp.tailspace (op : NetBlockOp) : ℕ := op.blockTail - op.tail

/-- The number of the block that the space is taken from. -/
def allocIndex (nbuf : NetBuf) (len : ℕ) (fromHead : Bool) : ℕ :=
  if nbuf.totalSize = 0 then 0
  else if fromHead then
    let index := ((netbufGetByte nbuf 0).map Prod.fst).getD 0
    if (nbuf.blockOp[index]?.map NetBlockOp.headspace).getD 0 < len ∧ 0 < index then index - 1
    else index
  else
    let index := ((netbufGetByte nbuf (nbuf.totalSize - 1)).map Prod.fst).getD 0
    if (nbuf.blockOp[index]?.map NetBlockOp.tailspace).getD 0 < len ∧
        index < nbuf.blockOp.length - 1 then index + 1
    else index

/-- `NetbufAllocSpace`: the block and the place in it where the space starts, or nothing. -/
def netbufAllocSpace (nbuf : NetBuf) (len : ℕ) (fromHead : Bool) :
    Except Halt (Option (ℕ × ℕ) × NetBuf) :=
  if len = 0 then .error .assert
  else
    let index := allocIndex nbuf len fromHead
    match nbuf.blockOp[index]? with
    | none => .error .fault
    | some op =>
      if fromHead then
        if op.headspace < len then .ok (none, nbuf)
        else
          .ok (some (index, op.head - len),
            ⟨nbuf.blockOp.set index { op with head := op.head - len, size := u32 (op.size + len) },
              u32 (nbuf.totalSize + len)⟩)
      else
        if op.tailspace < len then .ok (none, nbuf)
        else
          .ok (some (index, op.tail),
            ⟨nbuf.blockOp.set index { op with tail := op.tail + len, size := u32 (op.size + len) },
              u32 (nbuf.totalSize + len)⟩)

/-! ### `NetbufTrim` -/

def netblockTrim (op : NetBlockOp) (len : ℕ) (fromHead : Bool) : Except Halt NetBlockOp :=
  if op.size < len then .error .assert
  else if fromHead then .ok { op with size := op.size - len, head := op.head + len }
  else .ok { op with size := op.size - len, tail := op.tail - len }

/-- The loop of `NetbufTrim` over the blocks in the order in which it visits them. -/
def trimLoop (fromHead : Bool) : List NetBlockOp → ℕ → ℕ → Except Halt (List NetBlockOp × ℕ)
  | [], _, _ => .error .fault
  | op :: ops, len, trimmed =>
    if op.size = 0 then do
      let (ops, trimmed) ← trimLoop fromHead ops len trimmed
      return (op :: ops, trimmed)
    else if op.size < len then do
      let op' ← netblockTrim op op.size fromHead
      let (ops, trimmed) ← trimLoop fromHead ops (len - op.size) (u32 (trimmed + op.size))
      return (op' :: ops, trimmed)
    else do
      let op' ← netblockTrim op len fromHead
      return (op' :: ops, u32 (trimmed + len))

/-- `NetbufTrim`: the length that is trimmed, and the buffer. -/
def netbufTrim (nbuf : NetBuf) (len : ℕ) (fromHead : Bool) : Except Halt (ℕ × NetBuf) :=
  if len = 0 ∨ nbuf.totalSize = 0 then .ok (0, nbuf)
  else do
    let len := if nbuf.totalSize < len then nbuf.totalSize else len
    let blocks := if fromHead then nbuf.blockOp else nbuf.blockOp.reverse
    let (ops, trimmed) ← trimLoop fromHead blocks len 0
    return (trimmed, ⟨if fromHead then ops else ops.reverse, nbuf.totalSize - len⟩)

/-! ### `NetbufCopy` -/

/-- The bytes from `Head + skip` on. -/
def NetBlockOp.read (op : NetBlockOp) (skip len : ℕ) : List UInt8 :=
  (op.memory.drop (op.head + skip)).take len

/-- The loop that skips to the offset: the blocks from the one with the first byte on, and `Cur`. -/
def skipBlocks (offset : ℕ) : List NetBlockOp → ℕ → List NetBlockOp × ℕ
  | [], cur => ([], cur)
  | op :: ops, cur =>
    if op.size = 0 then skipBlocks offset ops cur
    else if offset < u32 (cur + op.size) then (op :: ops, cur)
    else skipBlocks offset ops (u32 (cur + op.size))

/-- The loop over the blocks after the first one: what it copies, and how much. -/
def copyLoop : List NetBlockOp → ℕ → List UInt8 × ℕ
  | [], _ => ([], 0)
  | op :: ops, len =>
    if op.size < len then
      let (data, copied) := copyLoop ops (len - op.size)
      (op.read 0 op.size ++ data, op.size + copied)
    else (op.read 0 len, len)

/-- `NetbufCopy`: the bytes that are written to `Dest` one after the other, and the result. -/
def netbufCopy (nbuf : NetBuf) (offset len : ℕ) : Except Halt (List UInt8 × ℕ) :=
  if len = 0 ∨ nbuf.totalSize ≤ offset then .ok ([], 0)
  else
    let len := if nbuf.totalSize - offset < len then nbuf.totalSize - offset else len
    match skipBlocks offset nbuf.blockOp 0 with
    | ([], _) => .error .fault
    | (op :: ops, cur) =>
      let skip := sub32 offset cur
      let left := sub32 op.size skip
      if len ≤ left then .ok (op.read skip len, len)
      else
        let (data, copied) := copyLoop ops (len - left)
        .ok (op.read skip left ++ data, u32 (left + copied))

/-! ### Queues of net buffers -/

/-- The loop that skips to the offset: the buffers from the one with the first byte on, and
`Cur`. -/
def skipBuffers (offset : ℕ) : List NetBuf → ℕ → List NetBuf × ℕ
  | [], cur => ([], cur)
  | nbuf :: nbufs, cur =>
    if offset < u32 (cur + nbuf.totalSize) then (nbuf :: nbufs, cur)
    else skipBuffers offset nbufs (u32 (cur + nbuf.totalSize))

/-- The loop over the buffers after the first one. -/
def queCopyLoop : List NetBuf → ℕ → Except Halt (List UInt8 × ℕ)
  | [], _ => .ok ([], 0)
  | nbuf :: nbufs, len =>
    if len = 0 then .ok ([], 0)
    else if nbuf.totalSize < len then do
      let (data, _) ← netbufCopy nbuf 0 nbuf.totalSize
      let (rest, copied) ← queCopyLoop nbufs (len - nbuf.totalSize)
      return (data ++ rest, nbuf.totalSize + copied)
    else do
      let (data, _) ← netbufCopy nbuf 0 len
      return (data, len)

def netbufQueCopy (que : NetBufQueue) (offset len : ℕ) : Except Halt (List UInt8 × ℕ) :=
  if len = 0 ∨ que.bufSize ≤ offset then .ok ([], 0)
  else
    let len := if que.bufSize - offset < len then que.bufSize - offset else len
    match skipBuffers offset que.bufList 0 with
    | ([], _) => .error .fault
    | (nbuf :: nbufs, cur) => do
      let skip := sub32 offset cur
      let left := sub32 nbuf.totalSize skip
      if len < left then netbufCopy nbuf skip len
      else
        let (data, _) ← netbufCopy nbuf skip left
        let (rest, copied) ← queCopyLoop nbufs (len - left)
        return (data ++ rest, u32 (left + copied))

/-- The loop of `NetbufQueTrim`: the buffers that stay, the number of those removed and the length
that is trimmed. -/
def queTrimLoop : List NetBuf → ℕ → Except Halt (List NetBuf × ℕ × ℕ)
  | [], _ => .ok ([], 0, 0)
  | nbuf :: nbufs, len =>
    if nbuf.totalSize ≤ len then
      if len - nbuf.totalSize = 0 then .ok (nbufs, 1, nbuf.totalSize)
      else do
        let (nbufs, removed, trimmed) ← queTrimLoop nbufs (len - nbuf.totalSize)
        return (nbufs, removed + 1, nbuf.totalSize + trimmed)
    else do
      let (trimmed, nbuf) ← netbufTrim nbuf len true
      return (nbuf :: nbufs, 0, trimmed)

def netbufQueTrim (que : NetBufQueue) (len : ℕ) : Except Halt (ℕ × NetBufQueue) :=
  if len = 0 then .ok (0, que)
  else do
    let len := if que.bufSize < len then que.bufSize else len
    let (bufList, removed, trimmed) ← queTrimLoop que.bufList len
    return (u32 trimmed, ⟨bufList, que.bufSize - len, que.bufNum - removed⟩)

end Edk2.Net
