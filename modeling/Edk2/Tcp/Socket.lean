import Edk2.Base

/-!
# Receiving from a socket

`SockImpl.c`: the received data waits in the receive buffer, a queue of net buffers that each tell
how many of their first bytes are urgent, until receive tokens take it out. The buffers are given by
their bytes.
-/

namespace Edk2.Tcp

/-- A net buffer of the receive queue, with the `TCP_RSV_DATA` in its `ProtoData`. -/
structure RcvBuf where
  data : List UInt8
  urgLen : ℕ
deriving DecidableEq, Repr

abbrev RcvBuf.totalSize (buf : RcvBuf) : ℕ := buf.data.length

/-- The bytes of the queue. -/
def queueBytes (queue : List RcvBuf) : List UInt8 := queue.flatMap RcvBuf.data

/-- `RcvBuffer.DataQueue`: the buffers have data (`TcpDeliverData`), and `BufSize` counts it. -/
structure DataQueue where
  bufList : List RcvBuf
  data_ne : ∀ buf ∈ bufList, buf.data ≠ []
  bufSize_lt : (queueBytes bufList).length < 2 ^ 32

/-- `EFI_TCP4_FRAGMENT_DATA`. -/
structure FragmentData where
  fragmentLength : ℕ
  fragmentBuffer : List UInt8
deriving DecidableEq, Repr

/-- `EFI_TCP4_RECEIVE_DATA`. -/
structure ReceiveData where
  urgentFlag : Bool
  dataLength : ℕ
  fragmentTable : List FragmentData
deriving DecidableEq, Repr

def tcpChkDataBuf (dataLen : ℕ) (fragmentTable : List FragmentData) : Bool :=
  dataLen = u32 (fragmentTable.map FragmentData.fragmentLength).sum

/-- A receive token that passed the checks of `Tcp4Receive`. -/
structure RcvToken where
  rxData : ReceiveData
  dataLength_lt : rxData.dataLength < 2 ^ 32
  dataLength_ne : rxData.dataLength ≠ 0
  chkDataBuf : tcpChkDataBuf rxData.dataLength rxData.fragmentTable = true

/-! ### How much to deliver -/

/-- The loop of `SockTcpDataToRcv`: the buffers, some with another `UrgLen`, and the length. -/
def dataToRcvLoop (isUrg : Bool) (bufLen : ℕ) : List RcvBuf → ℕ → List RcvBuf × ℕ
  | [], dataLen => ([], min bufLen dataLen)
  | entry :: rest, dataLen =>
    if dataLen < bufLen then
      if isUrg ≠ decide (0 < entry.urgLen) then (entry :: rest, min bufLen dataLen)
      else if isUrg ∧ entry.urgLen < entry.totalSize then
        let urgLen :=
          if u32 (entry.urgLen + dataLen) < bufLen then 0
          else sub32 entry.urgLen (sub32 bufLen dataLen)
        ({ entry with urgLen := urgLen } :: rest, min (u32 (urgLen + dataLen)) bufLen)
      else
        let (rest, dataLen) := dataToRcvLoop isUrg bufLen rest (u32 (dataLen + entry.totalSize))
        (entry :: rest, dataLen)
    else (entry :: rest, min bufLen dataLen)

/-- `SockTcpDataToRcv`: the queue afterwards, `IsUrg` and the length. -/
def sockTcpDataToRcv (queue : List RcvBuf) (bufLen : ℕ) : Except Halt (List RcvBuf × Bool × ℕ) :=
  match queue with
  | [] => .error .assert
  | entry :: rest =>
    let isUrg := decide (0 < entry.urgLen)
    if isUrg ∧ entry.urgLen < entry.totalSize then
      let dataLen := min entry.urgLen bufLen
      let urgLen := if dataLen < entry.urgLen then entry.urgLen - dataLen else 0
      .ok ({ entry with urgLen := urgLen } :: rest, isUrg, dataLen)
    else
      let (rest, dataLen) := dataToRcvLoop isUrg bufLen rest entry.totalSize
      .ok (entry :: rest, isUrg, dataLen)

/-! ### Delivering -/

/-- The loop of `SockSetTcpRxData`. -/
def rxDataLoop (bytes : List UInt8) : List FragmentData → ℕ → ℕ → List FragmentData
  | [], _, _ => []
  | fragment :: rest, rcvdBytes, offSet =>
    if 0 < rcvdBytes then
      let copyBytes := min fragment.fragmentLength rcvdBytes
      { fragmentLength := copyBytes
        fragmentBuffer :=
          (bytes.drop offSet).take copyBytes ++ fragment.fragmentBuffer.drop copyBytes } ::
        rxDataLoop bytes rest (rcvdBytes - copyBytes) (offSet + copyBytes)
    else fragment :: rest

def sockSetTcpRxData (queue : List RcvBuf) (rxData : ReceiveData) (rcvdBytes : ℕ) (isUrg : Bool) :
    Except Halt ReceiveData :=
  if rxData.dataLength < rcvdBytes then .error .assert
  else .ok ⟨isUrg, rcvdBytes, rxDataLoop (queueBytes queue) rxData.fragmentTable rcvdBytes 0⟩

/-- `NetbufQueTrim`. -/
def queueTrim : List RcvBuf → ℕ → List RcvBuf
  | [], _ => []
  | buf :: bufs, len =>
    if len = 0 then buf :: bufs
    else if buf.totalSize ≤ len then queueTrim bufs (len - buf.totalSize)
    else { buf with data := buf.data.drop len } :: bufs

/-- `SockProcessRcvToken`: the queue afterwards, the data received and its length. -/
def sockProcessRcvToken (queue : List RcvBuf) (rxData : ReceiveData) :
    Except Halt (List RcvBuf × ReceiveData × ℕ) := do
  let (queue, isUrg, tokenRcvdBytes) ← sockTcpDataToRcv queue rxData.dataLength
  let rxData ← sockSetTcpRxData queue rxData tokenRcvdBytes isUrg
  return (queueTrim queue tokenRcvdBytes, rxData, tokenRcvdBytes)

/-- The loop of `SockWakeRcvToken`: what the signaled tokens received, the queue and the tokens that
wait on. -/
def wakeRcvTokenLoop : List RcvToken → List RcvBuf → ℕ →
    Except Halt (List ReceiveData × List RcvBuf × List RcvToken)
  | [], queue, _ => .ok ([], queue, [])
  | token :: rcvTokenList, queue, rcvdBytes =>
    if 0 < rcvdBytes then do
      let (queue, rxData, tokenRcvdBytes) ← sockProcessRcvToken queue token.rxData
      if tokenRcvdBytes = 0 then return ([rxData], queue, token :: rcvTokenList)
      else
        let (received, queue, rest) ←
          wakeRcvTokenLoop rcvTokenList queue (sub32 rcvdBytes tokenRcvdBytes)
        return (rxData :: received, queue, rest)
    else .ok ([], queue, token :: rcvTokenList)

/-- `SockWakeRcvToken`, once there is data. -/
def sockWakeRcvToken (queue : DataQueue) (rcvTokenList : List RcvToken) :
    Except Halt (List ReceiveData × List RcvBuf × List RcvToken) :=
  wakeRcvTokenLoop rcvTokenList queue.bufList (queueBytes queue.bufList).length

end Edk2.Tcp
