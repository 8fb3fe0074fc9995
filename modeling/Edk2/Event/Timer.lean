import Edk2.Base
import Mathlib.Data.List.Sort

/-!
# Timer events

`Core/Dxe/Event/Timer.c`. `mEfiTimerList` is a list of events; an event is a number that stands for
the pointer to its `IEVENT`, and `0` is `NULL`. What the timer code does to the rest of the event
services is to signal events: signals of user events are recorded with the system time of the
signal, a signal of `mEfiCheckTimerEvent` makes its notification `CoreCheckTimers` pending. A timer
interrupt may call `CoreTimerTick` while `CoreCheckTimers` walks the list.
-/

namespace Edk2.Timer

abbrev EventId := ℕ

/-- `EFI_TIMER_DELAY`. -/
inductive TimerDelay
  | cancel
  | periodic
  | relative
deriving DecidableEq, Repr

/-- The enumeration value of a type; `(UINT32)Type > TimerRelative` is no type. -/
def timerDelay : ℕ → Option TimerDelay
  | 0 => some .cancel
  | 1 => some .periodic
  | 2 => some .relative
  | _ => none

/-- The fields of `IEVENT` that the timer code uses. -/
structure IEvent where
  /-- `Signature == EVENT_SIGNATURE`. -/
  signature : Bool
  /-- `(Type & EVT_TIMER) != 0`. -/
  timer : Bool
  /-- `Timer.Link.ForwardLink != NULL`. -/
  linked : Bool
  /-- `Timer.TriggerTime`. -/
  triggerTime : ℕ
  /-- `Timer.Period`. -/
  period : ℕ
deriving DecidableEq, Repr

/-- What happened to the timers; `delay` is the time asked for, and `time` the system time. -/
inductive Entry
  | set (event : EventId) (type : TimerDelay) (delay time : ℕ)
  | signalled (event : EventId) (time : ℕ)
deriving DecidableEq, Repr

structure State where
  events : EventId → IEvent
  /-- `mEfiTimerList`. -/
  timerList : List EventId
  /-- `mEfiSystemTime`. -/
  systemTime : ℕ
  /-- `mEfiCheckTimerEvent` is signalled and `CoreCheckTimers` has not started yet. -/
  checkSignalled : Bool
  /-- The settings and the signals so far, the latest first. -/
  log : List Entry

variable {s : State} {event : EventId}

/-- The trigger time of an event. -/
def State.trigger (s : State) (event : EventId) : ℕ := (s.events event).triggerTime

/-- Write some fields of an event. -/
def State.update (s : State) (event : EventId) (f : IEvent → IEvent) : State :=
  { s with events := Function.update s.events event (f (s.events event)) }

/-- `RemoveEntryList (&Event->Timer.Link)`, and the link is cleared. -/
def State.removeEntry (s : State) (event : EventId) : State :=
  { s.update event (fun e => { e with linked := false }) with
    timerList := s.timerList.erase event }

/-- `CoreSignalEvent (Event)`. -/
def State.signal (s : State) (event : EventId) : State :=
  { s with log := .signalled event s.systemTime :: s.log }

/-- `CoreSignalEvent (mEfiCheckTimerEvent)`. -/
def State.signalCheck (s : State) : State := { s with checkSignalled := true }

/-- The loop of `CoreInsertEventTimer`: the event goes before the first one that is later. -/
def insertLoop (trigger : EventId → ℕ) (event : EventId) : List EventId → List EventId
  | [] => [event]
  | event2 :: rest =>
    if trigger event < trigger event2 then event :: event2 :: rest
    else event2 :: insertLoop trigger event rest

def coreInsertEventTimer (s : State) (event : EventId) : State :=
  { s.update event (fun e => { e with linked := true }) with
    timerList := insertLoop s.trigger event s.timerList }

def coreTimerTick (duration : ℕ) (s : State) : State :=
  let s := { s with systemTime := u64 (s.systemTime + duration) }
  match s.timerList with
  | [] => s
  | event :: _ => if s.trigger event ≤ s.systemTime then s.signalCheck else s

/-- A periodic timer that has expired is added again. -/
def rearm (now : ℕ) (s : State) (event : EventId) : State :=
  let triggerTime := u64 (s.trigger event + (s.events event).period)
  if triggerTime ≤ now then
    coreInsertEventTimer ((s.update event ({ · with triggerTime := now })).signalCheck) event
  else
    coreInsertEventTimer (s.update event ({ · with triggerTime := triggerTime })) event

/-- What `CoreCheckTimers` does with the first timer of the list, which has expired. -/
def expire (now : ℕ) (s : State) (event : EventId) : State :=
  let s := (s.removeEntry event).signal event
  if (s.events event).period ≠ 0 then rearm now s event else s

/-- The loop of `CoreCheckTimers`; `now` is the system time that it has read, and `ticks` are the
timer interrupts before each iteration. Without enough fuel there is no result. -/
def checkTimersLoop (now : ℕ) : ℕ → List (List ℕ) → State → Option State
  | 0, _, _ => none
  | fuel + 1, ticks, s =>
    let s := (ticks.headD []).foldl (fun s duration => coreTimerTick duration s) s
    match s.timerList with
    | [] => some s
    | event :: _ =>
      if now < s.trigger event then some s
      else checkTimersLoop now fuel ticks.tail (expire now s event)

/-- The run of `CoreCheckTimers` from `s`, which has been dispatched, ends in `s'`. -/
def CoreCheckTimers (ticks : List (List ℕ)) (s s' : State) : Prop :=
  ∃ fuel, checkTimersLoop s.systemTime fuel ticks { s with checkSignalled := false } = some s'

/-- `Event->Timer.TriggerTime = CoreCurrentSystemTime () + TriggerTime`, and the timer is added. -/
def arm (event : EventId) (triggerTime period : ℕ) (s : State) : State :=
  let s := coreInsertEventTimer (s.update event
    ({ · with triggerTime := u64 (s.systemTime + triggerTime), period := period })) event
  if triggerTime = 0 then s.signalCheck else s

/-- The time that a setting asks for: a periodic timer without a period has the one of the timer
hardware, `gTimer->GetTimerPeriod`. -/
def requested (timerPeriod : ℕ) (type : TimerDelay) (triggerTime : ℕ) : ℕ :=
  match type with
  | .periodic => if triggerTime = 0 then timerPeriod else triggerTime
  | _ => triggerTime

/-- The timer is removed from the timer database if it is queued there, and its times are reset. -/
def disarm (event : EventId) (s : State) : State :=
  let s := if (s.events event).linked then s.removeEntry event else s
  s.update event ({ · with triggerTime := 0, period := 0 })

def coreSetTimer (timerPeriod : ℕ) (userEvent : EventId) (type triggerTime : ℕ) (s : State) :
    EfiStatus × State :=
  if userEvent = 0 then (.invalidParameter, s)
  else if (s.events userEvent).signature = false then (.invalidParameter, s)
  else match timerDelay type with
    | none => (.invalidParameter, s)
    | some type =>
      if (s.events userEvent).timer = false then (.invalidParameter, s)
      else
        let triggerTime := requested timerPeriod type triggerTime
        let s := { s with log := .set userEvent type triggerTime s.systemTime :: s.log }
        let s := disarm userEvent s
        match type with
        | .cancel => (.success, s)
        | .periodic => (.success, arm userEvent triggerTime triggerTime s)
        | .relative => (.success, arm userEvent triggerTime 0 s)

/-- `CoreCloseEvent`: the timer is cancelled and the signature cleared. -/
def coreCloseEvent (userEvent : EventId) (s : State) : EfiStatus × State :=
  if userEvent = 0 then (.invalidParameter, s)
  else if (s.events userEvent).signature = false then (.invalidParameter, s)
  else
    let s := if (s.events userEvent).timer then (coreSetTimer 0 userEvent 0 0 s).2 else s
    (.success, s.update userEvent ({ · with signature := false }))

/-! ### Runs -/

inductive Op
  | setTimer (timerPeriod : ℕ) (event : EventId) (type triggerTime : ℕ)
  | timerTick (duration : ℕ)
  | closeEvent (event : EventId)
  /-- `CoreCheckTimers` as the notification of `mEfiCheckTimerEvent`. -/
  | checkTimers (ticks : List (List ℕ))

inductive Step : Op → State → State → Prop
  | setTimer (timerPeriod : ℕ) (event : EventId) (type triggerTime : ℕ) (s : State) :
    Step (.setTimer timerPeriod event type triggerTime) s
      (coreSetTimer timerPeriod event type triggerTime s).2
  | timerTick (duration : ℕ) (s : State) : Step (.timerTick duration) s (coreTimerTick duration s)
  | closeEvent (event : EventId) (s : State) :
    Step (.closeEvent event) s (coreCloseEvent event s).2
  | checkTimers {ticks : List (List ℕ)} {s s' : State} (hsignalled : s.checkSignalled = true)
    (hrun : CoreCheckTimers ticks s s') : Step (.checkTimers ticks) s s'

/-- No timer has been set yet. -/
structure Initial (s : State) : Prop where
  timerList : s.timerList = []
  unlinked : ∀ event, (s.events event).linked = false
  systemTime : s.systemTime = 0
  log : s.log = []

/-- The states of the runs each of whose steps meets a condition. -/
inductive Reachable (ok : Op → State → Prop) : State → Prop
  | initial {s : State} (h : Initial s) : Reachable ok s
  | step {op : Op} {s s' : State} (h : Reachable ok s) (hok : ok op s) (hstep : Step op s s') :
    Reachable ok s'

end Edk2.Timer
