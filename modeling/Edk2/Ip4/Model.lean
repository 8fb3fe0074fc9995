import Edk2.Net.Buffer

/-!
# Fragments of IPv4 packets

`Ip4Dxe/Ip4Output.c` (fragmentation) and `Ip4Dxe/Ip4Input.c` (reassembly). Fragments are collected
per packet in assemble entries, which hang in the buckets of a hash table. The start, the end and the
length of a fragment are signed (`INTN`); the casts to `UINT32` in front of `NetbufTrim` are
explicit. Every `ASSERT` that can fail is a stop. Linked lists are lists; the per-packet
information is stored beside the net buffer it belongs to.
-/

namespace Edk2.Ip4

open Net

/-- `IP4_ASSEMLE_HASH_SIZE`. -/
abbrev ip4AssembleHashSize : ℕ := 31

abbrev ip4FragmentLife : ℤ := 120

abbrev ip4MaxPacketSize : ℤ := 65535

abbrev ip4MinHeadLen : ℕ := 20

abbrev ip4MaxHeadLen : ℕ := 60

abbrev ip4HeadDfMask : BitVec 16 := 0x4000
abbrev ip4HeadMfMask : BitVec 16 := 0x2000
abbrev ip4HeadOffsetMask : BitVec 16 := 0x1fff

/-- The fields of `IP4_HEAD` that the driver looks at, in host byte order. -/
structure Ip4Head where
  ver : ℕ
  headLen : ℕ
  totalLen : ℕ
  id : ℕ
  fragment : BitVec 16
  protocol : ℕ
  src : ℕ
  dst : ℕ
deriving DecidableEq, Repr

/-- `IP4_CLIP_INFO`; `stop` is `End`. -/
structure Ip4ClipInfo where
  linkFlag : ℕ
  castType : ℤ
  start : ℤ
  stop : ℤ
  length : ℤ
deriving DecidableEq, Repr

/-- A `NET_BUF` with its IP head and its per-packet information. -/
structure Packet where
  head : Ip4Head
  info : Ip4ClipInfo
  buf : NetBuf
deriving DecidableEq, Repr

/-- `IP4_ASSEMBLE_ENTRY`. `Head` and `Info` are the head and the information of the first
fragment, which nobody changes once it is enqueued. -/
structure AssembleEntry where
  dst : ℕ
  src : ℕ
  id : ℕ
  protocol : ℕ
  totalLen : ℤ
  curLen : ℤ
  fragments : List Packet
  head : Option Ip4Head
  info : Option Ip4ClipInfo
  life : ℤ
deriving DecidableEq, Repr

/-- `IP4_ASSEMBLE_TABLE`. -/
structure AssembleTable where
  bucket : ℕ → List AssembleEntry

def ip4InitAssembleTable : AssembleTable := ⟨fun _ => []⟩

def ip4AssembleHash (head : Ip4Head) : ℕ :=
  u32 (head.dst + head.src + head.id * 2 ^ 16 + head.protocol) % ip4AssembleHashSize

def ip4LastFragment (fragment : BitVec 16) : Bool := fragment &&& ip4HeadMfMask = 0

def ip4HeadFragmentField (df mf : Bool) (offset : ℕ) : BitVec 16 :=
  (if df then ip4HeadDfMask else 0) ||| (if mf then ip4HeadMfMask else 0) |||
    (BitVec.ofNat 16 (offset / 8) &&& ip4HeadOffsetMask)

/-- What the pool answers during the processing of one packet. -/
structure Allocations where
  /-- `Ip4CreateAssembleEntry` gets its memory. -/
  entry : Bool
  /-- The allocations of `NetbufFromBufList`. -/
  buffer : Allocation

/-! ### Reassembly -/

def ip4CreateAssembleEntry (dst src id protocol : ℕ) : AssembleEntry where
  dst := dst
  src := src
  id := id
  protocol := protocol
  totalLen := 0
  curLen := 0
  fragments := []
  head := none
  info := none
  life := ip4FragmentLife

/-- The cast to `UINT32`. -/
def toUint32 (n : ℤ) : ℕ := (n % 2 ^ 32).toNat

/-- The first half of `Ip4TrimPacket`. -/
def trimPacketHead (packet : Packet) (start : ℤ) : Except Halt Packet :=
  if packet.info.start < start then do
    let len := start - packet.info.start
    let (_, buf) ← netbufTrim packet.buf (toUint32 len) true
    return { packet with
      buf := buf, info := { packet.info with start := start, length := packet.info.length - len } }
  else .ok packet

/-- The second half of `Ip4TrimPacket`: `Len` is negative here. -/
def trimPacketTail (packet : Packet) (stop : ℤ) : Except Halt Packet :=
  if stop < packet.info.stop then do
    let len := stop - packet.info.stop
    let (_, buf) ← netbufTrim packet.buf (toUint32 len) false
    return { packet with
      buf := buf, info := { packet.info with stop := stop, length := packet.info.length - len } }
  else .ok packet

def ip4TrimPacket (packet : Packet) (start stop : ℤ) : Except Halt Packet :=
  if packet.info.start + packet.info.length ≠ packet.info.stop then .error .assert
  else if ¬ (packet.info.start < stop ∧ start < packet.info.stop) then .error .assert
  else do
    let packet ← trimPacketHead packet start
    trimPacketTail packet stop

/-- The loop over the fragments behind the insert point. The result are those that stay, `CurLen`,
and the new fragment unless it is dropped. -/
def checkBehind (this : Packet) :
    List Packet → ℤ → Except Halt (List Packet × ℤ × Option Packet)
  | [], curLen => .ok ([], curLen, some this)
  | node :: nodes, curLen =>
    if node.info.stop ≤ this.info.stop then checkBehind this nodes (curLen - node.info.length)
    else if node.info.start < this.info.stop then
      if this.info.start = node.info.start then .ok (node :: nodes, curLen, none)
      else do
        let this ← ip4TrimPacket this this.info.start node.info.start
        pure (node :: nodes, curLen, some this)
    else .ok (node :: nodes, curLen, some this)

/-- The fragment is checked against the one in front of it: what is left of it, or nothing. -/
def checkBefore (this : Packet) (prev : Option Packet) : Except Halt (Option Packet) :=
  match prev with
  | none => .ok (some this)
  | some node =>
    if this.info.start < node.info.stop then
      if this.info.stop ≤ node.info.stop then .ok none
      else (ip4TrimPacket this node.info.stop this.info.stop).map some
    else .ok (some this)

/-- The head and the information of the first fragment are kept. -/
def setFirst (assemble : AssembleEntry) (this : Packet) : Except Halt AssembleEntry :=
  if this.info.start = 0 then
    if assemble.head.isSome then .error .assert
    else .ok { assemble with head := some this.head, info := some this.info }
  else .ok assemble

/-- The length of the packet is known from its last fragment. -/
def setTotalLen (assemble : AssembleEntry) (this : Packet) : AssembleEntry :=
  if ip4LastFragment this.head.fragment ∧ assemble.totalLen = 0 then
    { assemble with totalLen := this.info.stop }
  else assemble

/-- The assemble information after a fragment is enqueued. -/
def updateAssemble (assemble : AssembleEntry) (fragments : List Packet) (curLen : ℤ)
    (this : Packet) : Except Halt AssembleEntry := do
  let assemble ← setFirst
    { assemble with fragments := fragments, curLen := curLen + this.info.length } this
  return setTotalLen assemble this

/-- The whole packet is delivered if all fragments are there. The result are the packet, and the
entry unless it is removed from the table. -/
def deliver (allocation : Allocation) (assemble : AssembleEntry) :
    Except Halt (Option Packet × Option AssembleEntry) :=
  if assemble.totalLen ≠ 0 ∧ assemble.totalLen ≤ assemble.curLen then
    match assemble.fragments.getLast? with
    | none => .error .fault
    | some last =>
      if last.info.stop ≠ assemble.totalLen then .ok (none, none)
      else do
        let some newPacket ←
            netbufFromBufList allocation (assemble.fragments.map Packet.buf) 0 0
          | return (none, none)
        match assemble.info, assemble.head with
        | some info, some head => return (some ⟨head, info, newPacket⟩, none)
        | _, _ => throw .assert
  else .ok (none, some assemble)

/-- `Ip4Reassemble`, after the assemble entry is found. -/
def reassembleEntry (allocation : Allocation) (assemble : AssembleEntry) (packet : Packet) :
    Except Halt (Option Packet × Option AssembleEntry) := do
  -- the insert point: before the first fragment with `THIS.Start < CUR.Start`
  let before := assemble.fragments.takeWhile fun fragment =>
    ¬ packet.info.start < fragment.info.start
  let behind := assemble.fragments.dropWhile fun fragment =>
    ¬ packet.info.start < fragment.info.start
  let some this ← checkBefore packet before.getLast? | return (none, some assemble)
  match ← checkBehind this behind assemble.curLen with
  | (behind, curLen, none) =>
    return (none, some { assemble with fragments := before ++ behind, curLen := curLen })
  | (behind, curLen, some this) => do
    let assemble ← updateAssemble assemble (before ++ this :: behind) curLen this
    deliver allocation assemble

/-- The fragment belongs to the packet of this entry. -/
def AssembleEntry.matches (assemble : AssembleEntry) (head : Ip4Head) : Bool :=
  assemble.dst = head.dst ∧ assemble.src = head.src ∧ assemble.id = head.id ∧
    assemble.protocol = head.protocol

/-- The first entry of the bucket that matches is changed or removed. -/
def updateFirst (head : Ip4Head)
    (f : AssembleEntry → Except Halt (Option Packet × Option AssembleEntry)) :
    List AssembleEntry → Except Halt (Option Packet × List AssembleEntry)
  | [] => .ok (none, [])
  | assemble :: entries =>
    if assemble.matches head then do
      let (packet, assemble) ← f assemble
      return (packet, assemble.toList ++ entries)
    else do
      let (packet, entries) ← updateFirst head f entries
      return (packet, assemble :: entries)

def AssembleTable.setBucket (table : AssembleTable) (index : ℕ) (entries : List AssembleEntry) :
    AssembleTable := ⟨fun i => if i = index then entries else table.bucket i⟩

/-- `Ip4Reassemble`: the assembled packet, or nothing, and the table. -/
def ip4Reassemble (allocations : Allocations) (table : AssembleTable) (packet : Packet) :
    Except Halt (Option Packet × AssembleTable) :=
  let index := ip4AssembleHash packet.head
  let entries := table.bucket index
  if entries.any fun assemble => assemble.matches packet.head then do
    let (result, entries) ← updateFirst packet.head
      (fun assemble => reassembleEntry allocations.buffer assemble packet) entries
    return (result, table.setBucket index entries)
  else if !allocations.entry then .ok (none, table)
  else do
    let head := packet.head
    let (result, assemble) ← reassembleEntry allocations.buffer
      (ip4CreateAssembleEntry head.dst head.src head.id head.protocol) packet
    return (result, table.setBucket index (assemble.toList ++ entries))

/-- The first part of `Ip4PacketTimerTicking`: the fragments of old packets are released. -/
def ip4PacketTimerTicking (table : AssembleTable) : AssembleTable :=
  ⟨fun index => (table.bucket index).filterMap fun assemble =>
    if 0 < assemble.life then
      if assemble.life - 1 = 0 then none else some { assemble with life := assemble.life - 1 }
    else some assemble⟩

/-! ### Input -/

/-- A packet from the network with what the checks on it find out. -/
structure Frame where
  packet : NetBuf
  head : Ip4Head
  linkFlag : ℕ
  /-- `(Head->Checksum == 0) || (Checksum == 0)`. -/
  checksumValid : Bool
  /-- `Ip4GetHostCast`. -/
  castType : ℤ
  /-- `(OptionLen == 0) || Ip4OptionIsValid (Option, OptionLen, TRUE)`. -/
  optionValid : Bool

/-- A trailer of the link layer is trimmed off. -/
def trimTrailer (packet : NetBuf) (totalLen : ℕ) : Except Halt NetBuf :=
  if totalLen < packet.totalSize then
    (netbufTrim packet (packet.totalSize - totalLen) false).map Prod.snd
  else .ok packet

/-- The per-packet information. -/
def clipInfo (frame : Frame) : Ip4ClipInfo :=
  let start : ℤ := (frame.head.fragment &&& ip4HeadOffsetMask).toNat * 8
  let length : ℤ := frame.head.totalLen - frame.head.headLen * 4
  ⟨frame.linkFlag, frame.castType, start, start + length, length⟩

/-- The checks that a packet is dropped for. -/
def malformed (frame : Frame) (packet : NetBuf) : Bool :=
  let headLen := frame.head.headLen * 4
  frame.head.ver ≠ 4 ∨ headLen < ip4MinHeadLen ∨ frame.head.totalLen < headLen ∨
    frame.head.totalLen ≠ packet.totalSize ∨ !frame.checksumValid ∨
    (clipInfo frame).castType = 0 ∨ ip4MaxPacketSize < (clipInfo frame).stop ∨ !frame.optionValid

/-- The packet is a fragment. -/
def isFragment (frame : Frame) : Bool :=
  frame.head.fragment &&& ip4HeadMfMask ≠ 0 ∨ (clipInfo frame).start ≠ 0

/-- A fragment that must not be fragmented, or with a length that is not in units of 8 bytes. -/
def malformedFragment (frame : Frame) : Bool :=
  frame.head.fragment &&& ip4HeadDfMask ≠ 0 ∨
    (frame.head.fragment &&& ip4HeadMfMask ≠ 0 ∧ (clipInfo frame).length % 8 ≠ 0)

/-- The part of `Ip4PreProcessPacket` before the reassembly: the packet without its head, if it
passes the checks. -/
def checkFrame (frame : Frame) : Except Halt (Option Packet) := do
  if frame.packet.totalSize < ip4MinHeadLen then return none
  let packet ← trimTrailer frame.packet frame.head.totalLen
  if malformed frame packet then return none
  let (_, buf) ← netbufTrim packet (frame.head.headLen * 4) true
  if isFragment frame ∧ malformedFragment frame then return none
  return some ⟨frame.head, clipInfo frame, buf⟩

/-- `Ip4PreProcessPacket`: the packet for the upper layer, if there is one. -/
def ip4PreProcessPacket (allocations : Allocations) (table : AssembleTable) (frame : Frame) :
    Except Halt (Option Packet × AssembleTable) := do
  match ← checkFrame frame with
  | none => return (none, table)
  | some packet =>
    if isFragment frame then ip4Reassemble allocations table packet
    else return (some packet, table)

/-! ### Output -/

/-- The loop of `Ip4Output` that sends all but the first fragment, from the tail to the head: the
fragment field of the head and the data of each frame. -/
def sendFragments (allocation : ℕ → Allocation) (packet : NetBuf) (mtu : ℕ) :
    (count index offset packetLen : ℕ) → Except Halt (Option (List (BitVec 16 × NetBuf)))
  | 0, _, _, _ => .ok (some [])
  | count + 1, index, offset, packetLen => do
    let some fragment ← netbufGetFragment (allocation index) packet offset packetLen ip4MaxHeadLen
      | return none
    let frame := (ip4HeadFragmentField false (index ≠ 0) offset, fragment)
    let some frames ← sendFragments allocation packet mtu count (index + 1) (offset - mtu) mtu
      | return none
    return some (frame :: frames)

/-- The fragmentation in `Ip4Output`: the frames in the order in which they are sent, or nothing if
there is no memory for one of them; `fragment` is the field that the caller has set. -/
def ip4Fragment (allocation : ℕ → Allocation) (packet : NetBuf) (fragment : BitVec 16)
    (maxPacketSize headLen : ℕ) : Except Halt (Option (List (BitVec 16 × NetBuf))) :=
  let mtu := maxPacketSize + 20
  if mtu < packet.totalSize + headLen then do
    let mtu := (mtu - headLen) / 8 * 8
    let num := (packet.totalSize + mtu - 1) / mtu
    let packetLen := packet.totalSize - (num - 1) * mtu
    let some frames ← sendFragments allocation packet mtu (num - 1) 0 (mtu * (num - 1)) packetLen
      | return none
    let (_, first) ← netbufTrim packet (packet.totalSize - mtu) false
    return some (frames ++ [(ip4HeadFragmentField false true 0, first)])
  else .ok (some [(fragment, packet)])

end Edk2.Ip4
