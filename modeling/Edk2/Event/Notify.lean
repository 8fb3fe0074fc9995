import Edk2.Base

/-!
# Events and task priorities

`Core/Dxe/Event/Event.c` and `Core/Dxe/Event/Tpl.c`. The services call each other and are called
again by the notification functions they dispatch, so the model keeps the calls that are under way
on a stack. Everything between `CoreAcquireEventLock` and `CoreReleaseEventLock` is one step: the
priority is `TPL_HIGH_LEVEL`, and nothing else runs. Releasing the lock restores the priority, and
this is a call like any other.

The code that runs between two calls of the services, a notification function or the code that
raised the priority first, may make any call. The memory of an event that was closed is not used
for another event.
-/

namespace Edk2.Event

abbrev EventId := ℕ

abbrev Tpl := ℕ

def tplApplication : Tpl := 4

def tplCallback : Tpl := 8

def tplNotify : Tpl := 16

def tplHighLevel : Tpl := 31

def evtTimer : BitVec 32 := 0x80000000#32

def evtNotifyWait : BitVec 32 := 0x00000100#32

def evtNotifySignal : BitVec 32 := 0x00000200#32

def evtSignalExitBootServices : BitVec 32 := 0x00000201#32

def evtSignalVirtualAddressChange : BitVec 32 := 0x60000202#32

/-- The groups of events; two of them are predefined, and `guid 0` is the GUID of zeros. -/
inductive EventGroup
  | exitBootServices
  | virtualAddressChange
  | guid (n : ℕ)
deriving DecidableEq, Repr

structure IEvent where
  /-- `Signature == EVENT_SIGNATURE`. -/
  signature : Bool
  type : BitVec 32
  signalCount : ℕ
  notifyTpl : Tpl
  /-- `NotifyFunction != NULL`. -/
  notifyFunction : Bool
  /-- Zeros, if the event was created without a group. -/
  eventGroup : EventGroup
  /-- `(ExFlag & EVT_EXFLAG_EVENT_GROUP) != 0`. -/
  inGroup : Bool
  /-- `NotifyLink.ForwardLink != NULL`. -/
  linked : Bool
deriving DecidableEq, Repr

def IEvent.timer (e : IEvent) : Bool := e.type &&& evtTimer != 0#32

def IEvent.notifyWait (e : IEvent) : Bool := e.type &&& evtNotifyWait != 0#32

def IEvent.notifySignal (e : IEvent) : Bool := e.type &&& evtNotifySignal != 0#32

/-- A call that is under way, at the place where it goes on. -/
inductive Frame
  /-- A notification function, and the priority at which it was entered. -/
  | notify (event : EventId) (tpl : Tpl)
  /-- The loop of `CoreRestoreTpl`. -/
  | restore (newTpl : Tpl)
  /-- `CoreDispatchEventNotifies` acquires the lock, for the first time or behind a
  notification. -/
  | dispatch (priority : Tpl) (first : Bool)
  /-- `CoreDispatchEventNotifies` has released the lock and notifies the event. -/
  | call (priority : Tpl) (event : EventId)
  /-- `CoreSignalEvent` calls `CoreNotifySignalList`. -/
  | signalList (event : EventId)
  /-- `CoreSignalEvent` acquires the lock again. -/
  | signalEnd
  /-- The last part of `CoreCheckEvent`. -/
  | checkClear (event : EventId)
  /-- `CoreCloseEvent` behind `CoreSetTimer`. -/
  | closeUnlink (event : EventId)
  /-- `CoreCloseEvent` has released the lock. -/
  | closeFree (event : EventId)
deriving DecidableEq, Repr

structure State where
  events : EventId → Option IEvent
  /-- The next pointer. -/
  fresh : EventId
  /-- `gEfiCurrentTpl`. -/
  tpl : Tpl
  /-- `gEventQueue`. -/
  queue : Tpl → List EventId
  /-- `gEventPending`. -/
  pending : BitVec 64
  /-- `gEventSignalQueue`. -/
  signalQueue : List EventId
  stack : List Frame
  /-- What the last call returned. -/
  status : EfiStatus

/-- The core before the first event is created. -/
def State.initial : State where
  events _ := none
  fresh := 0
  tpl := tplApplication
  queue _ := []
  pending := 0#64
  signalQueue := []
  stack := []
  status := .success

/-- The event has `EVENT_SIGNATURE`. -/
def State.lookup (s : State) (event : EventId) : Option IEvent :=
  (s.events event).filter (·.signature)

/-- Write some fields of an event. -/
def State.update (s : State) (event : EventId) (f : IEvent → IEvent) : State :=
  { s with events := Function.update s.events event ((s.events event).map f) }

/-- The call returns. -/
def State.return (s : State) (status : EfiStatus) : State := { s with status := status }

/-- The lock is acquired, and released behind what is done under it. -/
def State.locked (s : State) (body : State → State) (rest : List Frame) : State :=
  { body s with
    tpl := tplHighLevel
    stack := .restore s.tpl :: rest }

/-! ### Queues -/

/-- `RemoveEntryList (&Event->NotifyLink)`. -/
def State.removeNotify (s : State) (event : EventId) : State :=
  { s with queue := fun priority => (s.queue priority).erase event }

/-- `1 << Tpl`; no event is notified at `TPL_HIGH_LEVEL`. -/
def bit (tpl : Tpl) : BitVec 64 := 1#64 <<< tpl

def coreNotifyEvent (s : State) (event : EventId) : State :=
  match s.events event with
  | none => s
  | some e =>
    let s := if e.linked then s.removeNotify event else s
    let s := s.update event ({ · with linked := true })
    { s with
      queue := Function.update s.queue e.notifyTpl (s.queue e.notifyTpl ++ [event])
      pending := s.pending ||| bit e.notifyTpl }

/-- The loop of `CoreNotifySignalList`. -/
def notifySignalLoop (group : EventGroup) (s : State) (list : List EventId) : State :=
  list.foldl (fun s event =>
    if (s.events event).any (·.eventGroup == group) then coreNotifyEvent s event else s) s

/-- `CoreDispatchEventNotifies` takes an event out of its queue. -/
def dequeue (s : State) (priority : Tpl) (event : EventId) (rest : List EventId) : State :=
  { s.update event (fun e => { e with
      linked := false
      signalCount := if e.notifySignal then 0 else e.signalCount }) with
    queue := Function.update s.queue priority rest }

/-! ### Creation -/

def mEventTable : List (BitVec 32) :=
  [evtTimer ||| evtNotifySignal, evtTimer, evtNotifyWait, evtNotifySignal,
    evtSignalExitBootServices, evtSignalVirtualAddressChange, 0#32, evtTimer ||| evtNotifyWait]

/-- The arguments of `CoreCreateEventInternal`, and whether there is memory. -/
structure Creation where
  type : BitVec 32
  notifyTpl : Tpl
  notifyFunction : Bool
  group : Option EventGroup
  allocated : Bool
deriving DecidableEq, Repr

/-- `(Type & (EVT_NOTIFY_WAIT | EVT_NOTIFY_SIGNAL)) != 0`. -/
def notifyType (type : BitVec 32) : Bool := type &&& (evtNotifyWait ||| evtNotifySignal) != 0#32

/-- The type and the group of an event of a predefined group. -/
def convertType (type : BitVec 32) (group : Option EventGroup) :
    Option (BitVec 32 × Option EventGroup) :=
  match group with
  | some group =>
    if type = evtSignalExitBootServices ∨ type = evtSignalVirtualAddressChange then none
    else
      match group with
      | .exitBootServices => some (evtSignalExitBootServices, some group)
      | .virtualAddressChange => some (evtSignalVirtualAddressChange, some group)
      | .guid _ => some (type, some group)
  | none =>
    if type = evtSignalExitBootServices then some (type, some .exitBootServices)
    else if type = evtSignalVirtualAddressChange then some (type, some .virtualAddressChange)
    else some (type, none)

/-- The event that is created. -/
def newEvent (type : BitVec 32) (notifyTpl : Tpl) (notifyFunction : Bool)
    (group : Option EventGroup) : IEvent :=
  ⟨true, type, 0, notifyTpl, notifyFunction, group.getD (.guid 0), group.isSome, false⟩

/-- The event is added to `gEventSignalQueue` if its notification is queued by a signal. -/
def insertEvent (s : State) (e : IEvent) : State :=
  let s' : State := { s with
    events := Function.update s.events s.fresh (some e)
    fresh := s.fresh + 1
    status := .success }
  s'.locked (fun s' => if e.notifySignal then
    { s' with signalQueue := s.fresh :: s'.signalQueue } else s') s.stack

def coreCreateEventInternal (s : State) (c : Creation) : State :=
  if c.type ∉ mEventTable then s.return .invalidParameter
  else
    match convertType c.type c.group with
    | none => s.return .invalidParameter
    | some (type, group) =>
      if notifyType type then
        if c.notifyFunction = false ∨ c.notifyTpl ≤ tplApplication ∨ tplHighLevel ≤ c.notifyTpl then
          s.return .invalidParameter
        else if !c.allocated then s.return .outOfResources
        else insertEvent s (newEvent type c.notifyTpl true group)
      else if !c.allocated then s.return .outOfResources
      else insertEvent s (newEvent type 0 false group)

/-- `CoreCreateEventEx`; `CoreCreateEvent` is the call without a group. -/
def coreCreateEventEx (s : State) (c : Creation) : State :=
  if notifyType c.type && c.notifyTpl ≠ tplApplication && c.notifyTpl ≠ tplCallback &&
      c.notifyTpl ≠ tplNotify then
    s.return .invalidParameter
  else coreCreateEventInternal s c

/-! ### Calls -/

/-- `CoreSignalEvent`, up to the place where it releases the lock first. -/
def coreSignalEvent (s : State) (event : EventId) : State :=
  match s.lookup event with
  | none => s.return .invalidParameter
  | some e =>
    let s := s.return .success
    if e.signalCount = 0 then
      let signal (s : State) : State := s.update event ({ · with signalCount := 1 })
      if e.notifySignal then
        if e.inGroup then s.locked signal (.signalList event :: s.stack)
        else s.locked (fun s => coreNotifyEvent (signal s) event) s.stack
      else s.locked signal s.stack
    else s.locked id s.stack

/-- `CoreCheckEvent`, up to its last part. -/
def coreCheckEvent (s : State) (event : EventId) : State :=
  match s.lookup event with
  | none => s.return .invalidParameter
  | some e =>
    if e.notifySignal then s.return .invalidParameter
    else if e.signalCount = 0 && e.notifyWait then
      s.locked (coreNotifyEvent · event) (.checkClear event :: s.stack)
    else { s with stack := .checkClear event :: s.stack }

/-- `CoreCloseEvent`, up to the place where the lock is acquired. The timer of the event is
cancelled under the lock of the timers. -/
def coreCloseEvent (s : State) (event : EventId) : Option State :=
  match s.lookup event with
  | none => some (s.return .invalidParameter)
  | some e =>
    if e.timer then
      if tplHighLevel - 1 < s.tpl then none
      else some { s with
        tpl := tplHighLevel - 1
        stack := .restore s.tpl :: .closeUnlink event :: s.stack }
    else some { s with stack := .closeUnlink event :: s.stack }

def coreRaiseTpl (s : State) (newTpl : Tpl) : Option State :=
  if newTpl < s.tpl ∨ tplHighLevel < newTpl then none else some { s with tpl := newTpl }

/-- `CoreRestoreTpl`, up to its loop. -/
def coreRestoreTpl (s : State) (newTpl : Tpl) : Option State :=
  if s.tpl < newTpl ∨ tplHighLevel < newTpl then none
  else some { s with
    stack := .restore newTpl :: s.stack
    tpl := if tplHighLevel ≤ s.tpl ∧ newTpl < tplHighLevel then tplHighLevel else s.tpl }

/-! ### Steps -/

def highBitSet64 (operand : BitVec 64) : ℕ := operand.toNat.log2

/-- The loop of `CoreRestoreTpl`. -/
def restoreLoop (s : State) (newTpl : Tpl) (rest : List Frame) : State :=
  let pendingTpl := highBitSet64 s.pending
  if s.pending = 0#64 ∨ pendingTpl ≤ newTpl then
    { s with
      tpl := newTpl
      stack := rest }
  else { s with
    tpl := pendingTpl
    stack := .dispatch pendingTpl true :: .restore newTpl :: rest }

/-- The loop of `CoreDispatchEventNotifies`. -/
def dispatchLoop (s : State) (priority : Tpl) (first : Bool) (rest : List Frame) : Option State :=
  if first ∧ s.tpl ≠ priority then none
  else
    match s.queue priority with
    | [] => some (s.locked (fun s => { s with pending := s.pending &&& ~~~(bit priority) }) rest)
    | event :: events =>
      some (s.locked (dequeue · priority event events) (.call priority event :: rest))

/-- `CoreDispatchEventNotifies` calls the notification function. -/
def callNotify (s : State) (priority : Tpl) (event : EventId) (rest : List Frame) :
    Option State := do
  let e ← s.events event
  if !e.notifyFunction then none
  else some { s with stack := .notify event s.tpl :: .dispatch priority false :: rest }

/-- The last part of `CoreCheckEvent`. -/
def checkClear (s : State) (event : EventId) (rest : List Frame) : Option State := do
  let e ← s.events event
  if e.signalCount ≠ 0 then
    some ((s.return .success).locked
      (fun s => s.update event ({ · with signalCount := 0 })) rest)
  else some { s.return .notReady with stack := rest }

/-- `CoreCloseEvent` removes the event from the lists it is in. -/
def closeUnlink (s : State) (event : EventId) (rest : List Frame) : Option State := do
  let e ← s.events event
  some (s.locked (fun s =>
    let s := if e.linked then s.removeNotify event else s
    { s with signalQueue := s.signalQueue.erase event }) (.closeFree event :: rest))

/-- The call on top of the stack goes on. -/
def proceed (s : State) : Option State :=
  match s.stack with
  | [] => none
  | .notify _ _ :: _ => none
  | .restore newTpl :: rest => some (restoreLoop s newTpl rest)
  | .dispatch priority first :: rest => dispatchLoop s priority first rest
  | .call priority event :: rest => callNotify s priority event rest
  | .signalList event :: rest => do
    let e ← s.events event
    some (s.locked (fun s => notifySignalLoop e.eventGroup s s.signalQueue) (.signalEnd :: rest))
  | .signalEnd :: rest => some (s.locked id rest)
  | .checkClear event :: rest => checkClear s event rest
  | .closeUnlink event :: rest => closeUnlink s event rest
  | .closeFree event :: rest =>
    some { (s.update event ({ · with signature := false })).return .success with stack := rest }

inductive Call
  | createEventInternal (creation : Creation)
  | createEventEx (creation : Creation)
  | signalEvent (event : EventId)
  | checkEvent (event : EventId)
  | closeEvent (event : EventId)
  | raiseTpl (newTpl : Tpl)
  | restoreTpl (newTpl : Tpl)
deriving DecidableEq, Repr

def Call.run (s : State) : Call → Option State
  | .createEventInternal c => some (coreCreateEventInternal s c)
  | .createEventEx c => some (coreCreateEventEx s c)
  | .signalEvent event => some (coreSignalEvent s event)
  | .checkEvent event => some (coreCheckEvent s event)
  | .closeEvent event => coreCloseEvent s event
  | .raiseTpl newTpl => coreRaiseTpl s newTpl
  | .restoreTpl newTpl => coreRestoreTpl s newTpl

inductive Action
  /-- The code that runs makes a call. -/
  | call (c : Call)
  /-- The notification function that runs returns. -/
  | return
  /-- The call that is under way goes on. -/
  | proceed
deriving DecidableEq, Repr

/-- No call is under way in the code that runs. -/
def State.running (s : State) : Bool :=
  match s.stack with
  | [] => true
  | .notify _ _ :: _ => true
  | _ => false

def step (s : State) : Action → Option State
  | .call c => if s.running then c.run s else none
  | .return =>
    match s.stack with
    | .notify _ _ :: rest => some { s with stack := rest }
    | _ => none
  | .proceed => proceed s

end Edk2.Event
