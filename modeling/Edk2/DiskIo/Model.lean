import Edk2.Base
import Edk2.Lib.Overlay

/-!
# Non-blocking disk access

`Universal/Disk/DiskIoDxe/DiskIo.c`. A request is split into subtasks. A part of a block is written
by a blocking read of the block into a working buffer and a write of the whole buffer. The subtasks
are handed to the block device one by one, and the device completes those that are not blocking
whenever it likes, also while the others are handed over: `DiskIo2OnReadWriteComplete` runs at a
higher TPL than the loop. A step of the model is the first part of `DiskIo2ReadWriteDisk`, one turn
of its loop, its last part, or the completion of a subtask.

A task is known by its pointer, a subtask by its number within the request. The buffer of a write
is not changed before the request is completed.
-/

namespace Edk2.DiskIo

open Overlay

abbrev Byte := UInt8

/-- What the driver reads of the media, and `PcdDiskIoDataBufferBlockNum`. -/
structure Media where
  blockSize : ℕ
  dataBufferBlockNum : ℕ
deriving DecidableEq, Repr

/-- The working buffers of a request, and the one that all blocking requests share. -/
inductive Work
  | under
  | over
  | middle
  | shared
deriving DecidableEq, Repr

/-- Where the buffer of a subtask is: in the buffer of the caller or in a working buffer. -/
inductive Place
  | user (position : ℕ)
  | work (buffer : Work)
deriving DecidableEq, Repr

/-- `DISK_IO_SUBTASK`. -/
structure Subtask where
  write : Bool
  lba : ℕ
  offset : ℕ
  length : ℕ
  workingBuffer : Option Work
  buffer : Place
  blocking : Bool
deriving DecidableEq, Repr

/-- The arguments of `DiskIo2ReadDiskEx` and `DiskIo2WriteDiskEx`. -/
structure Request where
  write : Bool
  offset : ℕ
  bufferSize : ℕ
  /-- What is in the buffer. -/
  data : ℕ → Byte
  /-- `ALIGN_POINTER (BufferPtr, IoAlign) == BufferPtr`, for the positions in the buffer. -/
  aligned : ℕ → Bool

/-! ### Subtasks -/

/-- A computation that allocates: the list says which allocations succeed. -/
abbrev Create := StateT (List Bool) Option

/-- Whether the next allocation succeeds. -/
def tryAllocate : Create Bool := fun answers =>
  match answers with
  | [] => some (true, [])
  | answer :: rest => some (answer, rest)

def allocate : Create Unit := do
  if ← tryAllocate then pure () else failure

/-- `DiskIoCreateSubtask`. -/
def createSubtask (write : Bool) (lba offset length : ℕ) (workingBuffer : Option Work)
    (buffer : Place) (blocking : Bool) : Create Subtask := do
  allocate
  pure ⟨write, lba, offset, length, workingBuffer, buffer, blocking⟩

/-- The blocking read of a block that is written in part. -/
def readBlock (media : Media) (lba : ℕ) (workingBuffer : Work) : Create (List Subtask) := do
  let subtask ← createSubtask false lba 0 media.blockSize none (.work workingBuffer) true
  pure [subtask]

/-- The subtasks for a part of a block. -/
def partialBlock (media : Media) (write : Bool) (lba offset length position : ℕ) (work : Work)
    (blocking : Bool) : Create (List Subtask) :=
  let workingBuffer := if blocking then Work.shared else work
  do
    let _ ← (if blocking then pure () else allocate)
    let read ← (if write then readBlock media lba workingBuffer else pure [])
    let subtask ←
      createSubtask write lba offset length (some workingBuffer) (.user position) blocking
    pure (read ++ [subtask])

/-- The blocking subtasks for whole blocks that go through the shared working buffer. -/
def dataChunks (media : Media) (write : Bool) (overRunLba : ℕ) :
    ℕ → ℕ → ℕ → ℕ → Create (List Subtask)
  | 0, _, _, _ => pure []
  | fuel + 1, lba, bufferSize, position =>
    if lba < overRunLba then do
      let dataBufferSize := min bufferSize (media.dataBufferBlockNum * media.blockSize)
      let subtask ← createSubtask write lba 0 dataBufferSize (some .shared) (.user position) true
      let rest ← dataChunks media write overRunLba fuel (lba + media.dataBufferBlockNum)
        (bufferSize - dataBufferSize) (position + dataBufferSize)
      pure (subtask :: rest)
    else pure []

/-- The subtask for whole blocks whose buffer needs no other. -/
def alignedBlocks (write : Bool) (lba bufferSize position : ℕ) (blocking : Bool) :
    Create (List Subtask) := do
  let subtask ← createSubtask write lba 0 bufferSize none (.user position) blocking
  pure [subtask]

/-- The whole blocks, and the part of a block behind them. -/
def overRunList (media : Media) (aligned : ℕ → Bool) (write blocking : Bool)
    (unaligned : ℕ → ℕ → ℕ → ℕ → Create (List Subtask)) (lba bufferSize position : ℕ) :
    Create (List Subtask) :=
  let overRun := bufferSize % media.blockSize
  let overRunLba := lba + bufferSize / media.blockSize
  let bufferSize := bufferSize - overRun
  do
    let behind ← (if overRun = 0 then pure []
      else partialBlock media write overRunLba 0 overRun (position + bufferSize) .over blocking)
    let middle ← (if lba < overRunLba then
        if aligned position then alignedBlocks write lba bufferSize position blocking
        else unaligned lba overRunLba bufferSize position
      else pure [])
    pure (behind ++ middle)

/-- `DiskIoCreateSubtaskList`; `unaligned` makes the subtasks for whole blocks whose buffer is not
aligned. -/
def subtaskList (media : Media) (aligned : ℕ → Bool) (write blocking : Bool)
    (unaligned : ℕ → ℕ → ℕ → ℕ → Create (List Subtask)) (offset bufferSize position : ℕ) :
    Create (List Subtask) :=
  let lba := offset / media.blockSize
  let underRun := offset % media.blockSize
  if bufferSize = 0 then do
    let subtask ← createSubtask write lba underRun 0 none (.user position) blocking
    pure [subtask]
  else if underRun = 0 then
    overRunList media aligned write blocking unaligned lba bufferSize position
  else
    let length := min (media.blockSize - underRun) bufferSize
    do
      let under ← partialBlock media write lba underRun length position .under blocking
      let rest ← overRunList media aligned write blocking unaligned (lba + 1) (bufferSize - length)
        (position + length)
      pure (under ++ rest)

/-- The blocking request for whole blocks. -/
def createBlocking (media : Media) (aligned : ℕ → Bool) (write : Bool) :
    ℕ → ℕ → ℕ → Create (List Subtask) :=
  subtaskList media aligned write true fun lba overRunLba bufferSize position =>
    dataChunks media write overRunLba (overRunLba - lba) lba bufferSize position

/-- Whole blocks that go through a working buffer of their own. -/
def workingBlocks (write : Bool) (lba bufferSize position : ℕ) : Create (List Subtask) := do
  let subtask ← createSubtask write lba 0 bufferSize (some .middle) (.user position) false
  pure [subtask]

/-- `DiskIoCreateSubtaskList` for a request that is not blocking. Without memory for a working
buffer the whole blocks are downgraded to blocking access. -/
def createSubtaskList (media : Media) (request : Request) : Create (List Subtask) :=
  subtaskList media request.aligned request.write false
    (fun lba _ bufferSize position => do
      let allocated ← tryAllocate
      if allocated then workingBlocks request.write lba bufferSize position
      else
        createBlocking media request.aligned request.write (lba * media.blockSize) bufferSize
          position)
    request.offset request.bufferSize 0

/-! ### The state -/

/-- `DISK_IO2_TASK`: the number of the request whose token it has, and the numbers of its
subtasks. -/
structure Task where
  token : Option ℕ
  subtasks : List ℕ
deriving DecidableEq, Repr

/-- A subtask that the device has accepted. -/
structure Transfer where
  task : ℕ
  index : ℕ
  subtask : Subtask
  /-- What the device writes. -/
  source : ℕ → Byte
  request : ℕ

/-- A call of `DiskIo2ReadWriteDisk` in its loop. -/
structure Call where
  request : Request
  task : ℕ
  /-- The subtasks that were handed over. -/
  done : List Subtask
  rest : List (ℕ × Subtask)
  /-- The contents of the working buffers. -/
  work : Work → ℕ → Byte
  status : EfiStatus

structure State where
  disk : ℕ → Byte
  /-- The tasks that are allocated, by their pointers. -/
  heap : ℕ → Option Task
  /-- The next pointer. -/
  fresh : ℕ
  /-- `Instance->TaskQueue`. -/
  taskQueue : List ℕ
  /-- What the device has accepted and not completed. -/
  inflight : List Transfer
  call : Option Call
  /-- The requests whose calls returned, with what they returned. -/
  log : List (Request × EfiStatus)
  /-- The requests whose tokens were signalled, once for each signal. -/
  signalled : List ℕ
  /-- What was read, for each request and each position in its buffer. -/
  received : ℕ → ℕ → Byte
  /-- The device completed a write with an error. -/
  deviceError : Bool

/-- The driver before the first request. -/
def State.initial (disk : ℕ → Byte) : State :=
  { disk := disk
    heap := fun _ => none
    fresh := 0
    taskQueue := []
    inflight := []
    call := none
    log := []
    signalled := []
    received := fun _ _ => 0
    deviceError := false }

/-! ### Steps -/

/-- `DiskIo2RemoveCompletedTask`; there is no result if a task in the queue was freed. -/
def removeCompletedTask : List ℕ → (ℕ → Option Task) → Option (List ℕ × (ℕ → Option Task))
  | [], heap => some ([], heap)
  | id :: rest, heap => do
    let task ← heap id
    if task.subtasks = [] then removeCompletedTask rest (Function.update heap id none)
    else
      let (queue, heap) ← removeCompletedTask rest heap
      some (id :: queue, heap)

/-- `DiskIoDestroySubtask`, for a subtask of a task. -/
def Task.destroySubtask (task : Task) (index : ℕ) : Task :=
  { task with subtasks := task.subtasks.erase index }

/-- What the device transfers for a subtask. -/
def Subtask.size (media : Media) (subtask : Subtask) : ℕ :=
  if subtask.length % media.blockSize = 0 then subtask.length else media.blockSize

/-- `DiskIo2ReadWriteDisk` up to its loop, for a token with an event. -/
def begin (media : Media) (s : State) (request : Request) (taskAllocated : Bool)
    (answers : List Bool) : Option State := do
  let (queue, heap) ← removeCompletedTask s.taskQueue s.heap
  if !taskAllocated then
    return { s with
      taskQueue := queue
      heap := heap
      log := s.log ++ [(request, .outOfResources)] }
  match createSubtaskList media request answers with
  | none =>
    -- the task is freed, and stays in the queue
    return { s with
      taskQueue := queue ++ [s.fresh]
      heap := heap
      fresh := s.fresh + 1
      log := s.log ++ [(request, .outOfResources)] }
  | some (subtasks, _) =>
    return { s with
      taskQueue := queue ++ [s.fresh]
      heap := Function.update heap s.fresh
        (some ⟨some s.log.length, List.range subtasks.length⟩)
      fresh := s.fresh + 1
      call := some ⟨request, s.fresh, [], subtasks.zipIdx.map fun (subtask, index) =>
        (index, subtask), fun _ _ => 0, .success⟩ }

/-- The bytes from a place on. -/
def Call.bytes (c : Call) : Place → ℕ → Byte
  | .user position => fun i => c.request.data (position + i)
  | .work buffer => c.work buffer

/-- The working buffers after `CopyMem` for a write. -/
def Call.fill (c : Call) (subtask : Subtask) : Work → ℕ → Byte :=
  match subtask.workingBuffer with
  | some buffer => Function.update c.work buffer
      (overlay (c.work buffer) subtask.offset subtask.length (c.bytes subtask.buffer))
  | none => c.work

/-- What a subtask writes. -/
def Call.source (c : Call) (subtask : Subtask) : ℕ → Byte :=
  match subtask.workingBuffer with
  | some buffer => c.fill subtask buffer
  | none => c.bytes subtask.buffer

/-- The working buffers after a blocking read. -/
def Call.read (media : Media) (c : Call) (subtask : Subtask) (block : ℕ → Byte) :
    Work → ℕ → Byte :=
  let fill (buffer : Work) : Work → ℕ → Byte :=
    Function.update c.work buffer (overlay (c.work buffer) 0 (subtask.size media) block)
  match subtask.workingBuffer, subtask.buffer with
  | some buffer, _ => fill buffer
  | none, .work buffer => fill buffer
  | none, .user _ => c.work

/-- The buffer of the caller after a read: the bytes are copied from the working buffer, if there
is one. -/
def Subtask.receive (media : Media) (subtask : Subtask) (copy : Bool) (block buffer : ℕ → Byte) :
    ℕ → Byte :=
  match subtask.workingBuffer, subtask.buffer with
  | none, .user position => overlay buffer position (subtask.size media) block
  | some _, .user position =>
    if copy then overlay buffer position subtask.length fun i => block (subtask.offset + i)
    else buffer
  | _, .work _ => buffer

/-- One turn of the loop, for a subtask that the device accepts, or carries out if it is
blocking. -/
def accept (media : Media) (s : State) (c : Call) (index : ℕ) (subtask : Subtask)
    (rest : List (ℕ × Subtask)) (task : Task) : State :=
  let start := subtask.lba * media.blockSize
  let block := fun i => s.disk (start + i)
  let number := s.log.length
  let c' : Call := { c with
    done := c.done ++ [subtask]
    rest := rest
    work := if subtask.write then c.fill subtask
      else if subtask.blocking then c.read media subtask block else c.work }
  if subtask.blocking then
    { s with
      disk := if subtask.write then overlay s.disk start (subtask.size media) (c.source subtask)
        else s.disk
      heap := Function.update s.heap c.task (some (task.destroySubtask index))
      call := some c'
      received := if subtask.write then s.received else Function.update s.received number
        (subtask.receive media true block (s.received number)) }
  else
    { s with
      inflight := s.inflight ++ [⟨c.task, index, subtask, c.source subtask, number⟩]
      call := some c' }

/-- One turn of the loop. If the device does not accept the subtask, it is destroyed with all that
follow. -/
def submit (media : Media) (s : State) (status : EfiStatus) : Option State := do
  let c ← s.call
  let task ← s.heap c.task
  match c.rest with
  | [] => none
  | (index, subtask) :: rest =>
    if status.isError then
      return { s with
        heap := Function.update s.heap c.task (some (((index, subtask) :: rest).foldl
          (fun task (index, _) => task.destroySubtask index) task))
        call := some { c with
          rest := []
          status := status } }
    return accept media s c index subtask rest task

/-- `DiskIo2ReadWriteDisk` behind its loop. -/
def finish (s : State) : Option State := do
  let c ← s.call
  let task ← s.heap c.task
  if c.rest ≠ [] then none
  let s : State := { s with
    call := none
    log := s.log ++ [(c.request, c.status)] }
  if task.subtasks = [] then
    return { s with
      taskQueue := s.taskQueue.erase c.task
      heap := Function.update s.heap c.task none
      signalled := s.signalled ++ if c.status.isError then [] else task.token.toList }
  return s

/-- The device completes a subtask, and `DiskIo2OnReadWriteComplete` is called. -/
def complete (media : Media) (s : State) (position : ℕ) (status : EfiStatus) : Option State := do
  let transfer ← s.inflight[position]?
  let task ← s.heap transfer.task
  let subtask := transfer.subtask
  let start := subtask.lba * media.blockSize
  let block := fun i => s.disk (start + i)
  let task' := task.destroySubtask transfer.index
  let signal : Bool := status.isError ∨ task'.subtasks = []
  return { s with
    disk := if subtask.write && !status.isError then
        overlay s.disk start (subtask.size media) transfer.source
      else s.disk
    heap := Function.update s.heap transfer.task
      (some (if signal then { task' with token := none } else task'))
    inflight := s.inflight.eraseIdx position
    signalled := if signal then s.signalled ++ task.token.toList else s.signalled
    received := if subtask.write || status.isError then s.received
      else Function.update s.received transfer.request
        (subtask.receive media task.token.isSome block (s.received transfer.request))
    deviceError := s.deviceError || (subtask.write && status.isError) }

inductive Event
  /-- A request is made; the flags say which allocations succeed. -/
  | call (request : Request) (taskAllocated : Bool) (answers : List Bool)
  /-- The device answers the next subtask of the call. -/
  | submit (status : EfiStatus)
  /-- The call returns. -/
  | finish
  /-- The device completes one of the subtasks it has accepted. -/
  | complete (position : ℕ) (status : EfiStatus)

def step (media : Media) (s : State) : Event → Option State
  | .call request taskAllocated answers =>
    if s.call.isSome then none else begin media s request taskAllocated answers
  | .submit status => submit media s status
  | .finish => finish s
  | .complete position status => complete media s position status

end Edk2.DiskIo
