import Edk2.Net.Buffer

/-!
# Downloads with MTFTP

`Mtftp4Dxe/Mtftp4Support.c` and `Mtftp4Rrq.c`. The holes of the file are a list of block ranges
with signed bounds (`INTN`). Block numbers are 16-bit values; a range that starts over counts its
rounds. The answers of the pool, of the network and of the callback of the user are parameters of
each packet.
-/

namespace Edk2.Mtftp4

open Net

/-- `MTFTP4_BLOCK_RANGE`; `stop` is `End`. -/
structure BlockRange where
  start : ℤ
  stop : ℤ
  round : ℤ
  bound : ℤ
deriving DecidableEq, Repr

/-- What is sent to the server. -/
inductive Message
  | ack (block : ℕ)
  | error (code : ℕ) (text : String)
deriving DecidableEq, Repr

abbrev errorCodeDiskFull : ℕ := 3
abbrev errorCodeIllegalOperation : ℕ := 4

/-- The fields of `MTFTP4_PROTOCOL` and of its token that a download uses. -/
structure Mtftp4Protocol where
  blkSize : ℕ
  lastBlock : ℕ
  blocks : List BlockRange
  windowSize : ℕ
  totalBlock : ℕ
  ackedBlock : ℕ
  master : Bool
  /-- `Token->Buffer`: the memory behind the pointer, unless it is `NULL`. -/
  buffer : Option (List UInt8)
  /-- `Token->BufferSize`. -/
  bufferSize : ℕ
  /-- What was sent, the latest first. -/
  sent : List Message
deriving DecidableEq, Repr

/-- The DATA packet; `DataLen` is the length of the data. -/
structure DataPacket where
  block : ℕ
  data : List UInt8
deriving DecidableEq, Repr

/-- What the code gets from elsewhere while it processes a packet. -/
structure Answers where
  /-- The pool has memory for a block range. -/
  memory : Bool
  /-- What `Token->CheckPacket` returns, unless it is `NULL`. -/
  checkPacket : Option EfiStatus
  /-- The status of allocating and sending the ACK. -/
  sendAck : EfiStatus
  /-- The content of the local variable `BlockCounter` before it is set. -/
  blockCounter : ℕ
deriving DecidableEq, Repr

/-! ### The block ranges -/

def mtftp4AllocateRange (start stop : ℤ) : BlockRange := ⟨start, stop, 0, stop⟩

/-- `Mtftp4InitBlockRange`, when there is memory. -/
def mtftp4InitBlockRange (start stop : ℤ) : List BlockRange := [mtftp4AllocateRange start stop]

def mtftp4GetNextBlockNum : List BlockRange → ℤ
  | [] => -1
  | range :: _ => range.start

/-- The loop of `Mtftp4SetLastBlockNum`, over the ranges from the tail to the head. -/
def setLastLoop (last : ℤ) : List BlockRange → List BlockRange
  | [] => []
  | range :: ranges =>
    if last < range.start then setLastLoop last ranges
    else (if last < range.stop then { range with stop := last } else range) :: ranges

def mtftp4SetLastBlockNum (blocks : List BlockRange) (last : ℤ) : List BlockRange :=
  (setLastLoop last blocks.reverse).reverse

/-- The block counter of the first block of a range. -/
def blockCounter (range : BlockRange) (num : ℕ) : ℕ :=
  if 0 < range.round then
    u64 (num + range.bound.toNat + (range.round - 1).toNat * (range.bound + 1).toNat + 1)
  else num

/-- `Range->Start++`, starting over behind the bound. -/
def advance (range : BlockRange) : BlockRange :=
  let range := { range with start := range.start + 1 }
  if range.bound < range.start then { range with start := 0, round := range.round + 1 } else range

/-- `Mtftp4RemoveBlockNum`: the status, `*BlockCounter` and the ranges. -/
def mtftp4RemoveBlockNum (answers : Answers) (num : ℕ) (completed : Bool) :
    List BlockRange → EfiStatus × ℕ × List BlockRange
  | [] => (.notFound, answers.blockCounter, [])
  | range :: ranges =>
    if range.stop < num then
      let (status, counter, ranges) := mtftp4RemoveBlockNum answers num completed ranges
      (status, counter, range :: ranges)
    else if (num : ℤ) < range.start then (.notFound, answers.blockCounter, range :: ranges)
    else if range.start = num then
      let counter := blockCounter range num
      let range := advance range
      if range.stop < range.start ∨ completed then (.success, counter, ranges)
      else (.success, counter, range :: ranges)
    else if range.stop = num then
      (.success, answers.blockCounter, { range with stop := range.stop - 1 } :: ranges)
    else if !answers.memory then (.outOfResources, answers.blockCounter, range :: ranges)
    else
      (.success, answers.blockCounter,
        { range with stop := num - 1 } :: mtftp4AllocateRange (num + 1) range.stop :: ranges)

/-! ### The packets -/

def mtftp4RrqSendAck (answers : Answers) (self : Mtftp4Protocol) (blkNo : ℕ) :
    EfiStatus × Mtftp4Protocol :=
  if answers.sendAck.isError then (answers.sendAck, self)
  else
    (.success, { self with ackedBlock := self.totalBlock, sent := .ack blkNo :: self.sent })

/-- `(UINT16) (Expected - 1)`. -/
def ackNumber (expected : ℤ) : ℕ := ((expected - 1) % 2 ^ 16).toNat

/-- The end of `Mtftp4RrqSaveBlock`: the data is copied to the buffer if there is room for it. -/
def saveData (self : Mtftp4Protocol) (packet : DataPacket) (completed : Bool) (blockCounter : ℕ) :
    Except Halt (EfiStatus × Mtftp4Protocol) :=
  match self.buffer with
  | none => .ok (.success, self)
  | some buffer =>
    -- `BlockCounter - 1` and the product wrap around at 64 bits
    let start := u64 (u64 (blockCounter + (2 ^ 64 - 1)) * self.blkSize)
    let stop := u64 (start + packet.data.length)
    if stop ≤ self.bufferSize then do
      let buffer ← copyMem buffer start packet.data
      let self := { self with buffer := some buffer }
      if self.lastBlock = packet.block ∧ completed then
        return (.success, { self with bufferSize := stop })
      else return (.success, self)
    else if self.lastBlock ≠ 0 then
      .ok (.bufferTooSmall, { self with
        bufferSize := stop
        sent := .error errorCodeDiskFull "User provided memory block is too small" :: self.sent })
    else .ok (.success, self)

/-- The last block is known by its length. -/
def noteLastBlock (self : Mtftp4Protocol) (packet : DataPacket) : Mtftp4Protocol :=
  if packet.data.length < self.blkSize then
    { self with
      lastBlock := packet.block, blocks := mtftp4SetLastBlockNum self.blocks packet.block }
  else self

def mtftp4RrqSaveBlock (answers : Answers) (self : Mtftp4Protocol) (packet : DataPacket) :
    Except Halt (EfiStatus × Mtftp4Protocol) :=
  let completed : Bool := packet.data.length < self.blkSize
  let self := noteLastBlock self packet
  let (status, counter, blocks) :=
    mtftp4RemoveBlockNum answers packet.block completed self.blocks
  let self := { self with blocks := blocks }
  if status = .notFound then .ok (.success, self)
  else if status.isError then .ok (status, self)
  else
    match answers.checkPacket with
    | some status =>
      if status.isError then
        .ok (.aborted, { self with
          sent := .error errorCodeIllegalOperation "User aborted download" :: self.sent })
      else saveData self packet completed counter
    | none => saveData self packet completed counter

/-- The end of `Mtftp4RrqHandleData`: the ACK, and whether the download has completed. -/
def acknowledge (answers : Answers) (self : Mtftp4Protocol) :
    EfiStatus × Bool × Mtftp4Protocol :=
  let expected := mtftp4GetNextBlockNum self.blocks
  if self.master ∨ expected < 0 then
    let blockNum := if expected < 0 then self.lastBlock else ackNumber expected
    if self.windowSize = u64 (self.totalBlock + (2 ^ 64 - self.ackedBlock)) ∨ expected < 0 then
      let (status, self) := mtftp4RrqSendAck answers self blockNum
      (status, expected < 0, self)
    else (.success, expected < 0, self)
  else (.success, false, self)

/-- `Mtftp4RrqHandleData`: the status, `*Completed` and the session. -/
def mtftp4RrqHandleData (answers : Answers) (self : Mtftp4Protocol) (packet : DataPacket) :
    Except Halt (EfiStatus × Bool × Mtftp4Protocol) :=
  let expected := mtftp4GetNextBlockNum self.blocks
  if expected < 0 then .error .assert
  else if self.master ∧ expected ≠ packet.block then
    let (status, self) := mtftp4RrqSendAck answers self (ackNumber expected)
    .ok (status, false, self)
  else do
    let (status, self) ← mtftp4RrqSaveBlock answers self packet
    if status.isError then return (status, false, self)
    else return acknowledge answers { self with totalBlock := u64 (self.totalBlock + 1) }

/-- `Mtftp4RrqInput` for a DATA packet. -/
def mtftp4RrqInput (answers : Answers) (self : Mtftp4Protocol) (packet : DataPacket) :
    Except Halt (EfiStatus × Bool × Mtftp4Protocol) :=
  if self.blkSize < packet.data.length then .ok (.success, false, self)
  else mtftp4RrqHandleData answers self packet

/-- The packets of a session, which ends with an error or when the download has completed: how it
ended, if it did, and the session. -/
def download : Mtftp4Protocol → List (Answers × DataPacket) →
    Except Halt (Option (EfiStatus × Bool) × Mtftp4Protocol)
  | self, [] => .ok (none, self)
  | self, (answers, packet) :: packets => do
    let (status, completed, self) ← mtftp4RrqInput answers self packet
    if status.isError ∨ completed then return (some (status, completed), self)
    else download self packets

end Edk2.Mtftp4
