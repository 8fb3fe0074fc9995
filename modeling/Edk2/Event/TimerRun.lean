import Edk2.Event.Timer
import Mathlib.Algebra.BigOperators.Group.List.Basic

/-!
# Runs of the timer code

A run that never wraps a 64-bit time keeps the timer list sorted, and in step with what was asked
for: the list holds the timers that are set and have not run out, a relative timer is signalled
once, and none too early. The scan of `CoreCheckTimers` ends because every timer that it puts back
is at the time it has read or behind it.
-/

namespace Edk2.Timer

variable {s s' : State} {event : EventId} {now : ℕ}

/-- How a timer was set last. -/
structure Setting where
  type : TimerDelay
  delay : ℕ
  time : ℕ

/-- The distance between two signals, or `0` if there is only one. -/
def Setting.period (setting : Setting) : ℕ :=
  match setting.type with
  | .periodic => setting.delay
  | _ => 0

/-- The last setting of a timer. -/
def lastSetting (event : EventId) : List Entry → Option Setting
  | [] => none
  | .set e type delay time :: log =>
    if e = event then some ⟨type, delay, time⟩ else lastSetting event log
  | .signalled _ _ :: log => lastSetting event log

/-- The number of signals since the last setting of a timer. -/
def signalCount (event : EventId) : List Entry → ℕ
  | [] => 0
  | .set e _ _ _ :: log => if e = event then 0 else signalCount event log
  | .signalled e _ :: log =>
    if e = event then signalCount event log + 1 else signalCount event log

/-- A timer is armed if it was not cancelled, and a timer without a period only until its signal. -/
def Armed (event : EventId) (log : List Entry) : Prop :=
  ∃ setting, lastSetting event log = some setting ∧ setting.type ≠ .cancel ∧
    (setting.period = 0 → signalCount event log = 0)

/-- Each signal belongs to a setting that is no cancel, it is not too early, and it is the first
one if the timer is relative. -/
def SignalsInTime (log : List Entry) : Prop :=
  ∀ later event time earlier, log = later ++ .signalled event time :: earlier →
    ∃ setting, lastSetting event earlier = some setting ∧ setting.type ≠ .cancel ∧
      setting.time + setting.delay ≤ time ∧
      (setting.type = .relative → signalCount event earlier = 0)

/-- `mEfiTimerList` is sorted and holds each armed timer once. -/
structure ListSorted (s : State) : Prop where
  sorted : s.timerList.Pairwise (fun e e' => s.trigger e ≤ s.trigger e')
  nodup : s.timerList.Nodup
  armed : ∀ event, event ∈ s.timerList ↔ Armed event s.log

/-- What a run of `CoreCheckTimers` leaves behind if it has read the time `now`. -/
structure Checked (now : ℕ) (s : State) : Prop where
  later : ∀ event ∈ s.timerList, now < s.trigger event
  once : ∀ event setting, lastSetting event s.log = some setting → setting.type = .relative →
    setting.time + setting.delay ≤ now → signalCount event s.log = 1

/-- The timers work in a state: what holds of the list and of the signals, and that a scan ends. -/
structure TimersWork (ok : Op → State → Prop) (s : State) : Prop where
  list : ListSorted s
  signals : SignalsInTime s.log
  check : ∀ ticks, s.checkSignalled = true → ok (.checkTimers ticks) s →
    (∃ s', CoreCheckTimers ticks s s') ∧
      ∀ s', CoreCheckTimers ticks s s' → Checked s.systemTime s'

@[simp] lemma lastSetting_set_self {type : TimerDelay} {delay time : ℕ} {log : List Entry} :
    lastSetting event (.set event type delay time :: log) = some ⟨type, delay, time⟩ := if_pos rfl

@[simp] lemma signalCount_set_self {type : TimerDelay} {delay time : ℕ} {log : List Entry} :
    signalCount event (.set event type delay time :: log) = 0 := if_pos rfl

@[simp] lemma lastSetting_signalled {e : EventId} {time : ℕ} {log : List Entry} :
    lastSetting event (.signalled e time :: log) = lastSetting event log := rfl

@[simp] lemma signalCount_signalled_self {time : ℕ} {log : List Entry} :
    signalCount event (.signalled event time :: log) = signalCount event log + 1 := if_pos rfl

/-- The event that an entry is about. -/
def Entry.subject : Entry → EventId
  | .set event _ _ _ => event
  | .signalled event _ => event

lemma lastSetting_other {entry : Entry} {log : List Entry} (h : entry.subject ≠ event) :
    lastSetting event (entry :: log) = lastSetting event log := by
  cases entry with
  | set e type delay time => exact if_neg h
  | signalled e time => rfl

lemma signalCount_other {entry : Entry} {log : List Entry} (h : entry.subject ≠ event) :
    signalCount event (entry :: log) = signalCount event log := by
  cases entry with
  | set e type delay time => exact if_neg h
  | signalled e time => exact if_neg h

lemma signalsInTime_set {e : EventId} {type : TimerDelay} {delay time : ℕ} {log : List Entry}
    (h : SignalsInTime log) : SignalsInTime (.set e type delay time :: log) := by
  intro later event t earlier hlog
  cases later with
  | nil => simp at hlog
  | cons entry later =>
    rw [List.cons_append, List.cons.injEq] at hlog
    exact h later event t earlier hlog.2

lemma signalsInTime_signalled {time : ℕ} {log : List Entry} {setting : Setting}
    (h : SignalsInTime log) (hset : lastSetting event log = some setting)
    (htype : setting.type ≠ .cancel) (hdue : setting.time + setting.delay ≤ time)
    (hfst : setting.type = .relative → signalCount event log = 0) :
    SignalsInTime (.signalled event time :: log) := by
  intro later e t earlier hlog
  cases later with
  | nil =>
    grind
  | cons entry later =>
    rw [List.cons_append, List.cons.injEq] at hlog
    exact h later e t earlier hlog.2

lemma insertLoop_perm (trigger : EventId → ℕ) (event : EventId) (list : List EventId) :
    (insertLoop trigger event list).Perm (event :: list) := by
  induction list with
  | nil => rfl
  | cons event2 rest ih =>
    grind [insertLoop]

lemma insertLoop_sorted {trigger : EventId → ℕ} {list : List EventId}
    (h : list.Pairwise (fun e e' => trigger e ≤ trigger e')) (event : EventId) :
    (insertLoop trigger event list).Pairwise (fun e e' => trigger e ≤ trigger e') := by
  induction list with
  | nil => simp [insertLoop]
  | cons event2 rest ih =>
    obtain ⟨hfst, hrest⟩ := List.pairwise_cons.mp h
    unfold insertLoop
    split_ifs with hlt
    · grind
    · refine List.pairwise_cons.mpr ⟨fun e he => ?_, ih hrest⟩
      rcases List.mem_cons.mp ((insertLoop_perm trigger event rest).subset he) with rfl | he
      · exact not_lt.mp hlt
      · exact hfst e he

lemma coreInsertEventTimer_timerList (s : State) (event : EventId) :
    (coreInsertEventTimer s event).timerList =
      insertLoop (coreInsertEventTimer s event).trigger event s.timerList := by
  have htri : (coreInsertEventTimer s event).trigger = s.trigger := by
    funext e
    by_cases he : e = event
    · simp [State.trigger, coreInsertEventTimer, State.update, he]
    · simp [State.trigger, coreInsertEventTimer, State.update, he]
  rw [htri]
  rfl

@[simp] lemma coreInsertEventTimer_events (s : State) (event : EventId) :
    (coreInsertEventTimer s event).events =
      Function.update s.events event { s.events event with linked := true } := rfl

@[simp] lemma signalCheck_events (s : State) : s.signalCheck.events = s.events := rfl

/-- An event agrees with what was asked for. -/
structure Tracks (e : IEvent) (setting? : Option Setting) (count : ℕ) : Prop where
  armed : e.linked = true ↔
    ∃ setting, setting? = some setting ∧ setting.type ≠ .cancel ∧ (setting.period = 0 → count = 0)
  period : e.linked = true → ∀ setting, setting? = some setting → e.period = setting.period
  due : e.linked = true → ∀ setting, setting? = some setting →
    setting.time + setting.delay ≤ e.triggerTime
  exact_due : e.linked = true → ∀ setting, setting? = some setting → setting.period = 0 →
    e.triggerTime = setting.time + setting.delay
  once : ∀ setting, setting? = some setting → setting.period = 0 → count ≤ 1

structure Good (s : State) : Prop where
  sorted : s.timerList.Pairwise (fun e e' => s.trigger e ≤ s.trigger e')
  nodup : s.timerList.Nodup
  linked : ∀ event, event ∈ s.timerList ↔ (s.events event).linked = true
  tracks : ∀ event, Tracks (s.events event) (lastSetting event s.log) (signalCount event s.log)
  signals : SignalsInTime s.log

lemma Good.listSorted (h : Good s) : ListSorted s where
  sorted := h.sorted
  nodup := h.nodup
  armed event := (h.linked event).trans (h.tracks event).armed

lemma good_initial (h : Initial s) : Good s where
  sorted := by simp [h.timerList]
  nodup := by simp [h.timerList]
  linked event := by simp [h.timerList, h.unlinked]
  tracks event := by
    rw [h.log]
    constructor <;> simp [h.unlinked, lastSetting]
  signals := by simp [h.log, SignalsInTime]

lemma Good.of_time (h : Good s) (heve : s'.events = s.events)
    (hlist : s'.timerList = s.timerList) (hlog : s'.log = s.log) : Good s' where
  sorted := by
    have htri : s'.trigger = s.trigger := by
      funext e
      simp only [State.trigger, heve]
    rw [hlist, htri]
    exact h.sorted
  nodup := hlist ▸ h.nodup
  linked event := by rw [hlist, heve]; exact h.linked event
  tracks event := by rw [heve, hlog]; exact h.tracks event
  signals := hlog ▸ h.signals

lemma Good.of_event (h : Good s) (event : EventId) (entry : Entry) (hent : entry.subject = event)
    (hoth : ∀ e ≠ event, s'.events e = s.events e) (hlog : s'.log = entry :: s.log)
    (hlist : s'.timerList = s.timerList.erase event ∧ (s'.events event).linked = false ∨
      s'.timerList = insertLoop s'.trigger event (s.timerList.erase event) ∧
        (s'.events event).linked = true)
    (htra : Tracks (s'.events event) (lastSetting event s'.log) (signalCount event s'.log))
    (hsig : SignalsInTime s'.log) : Good s' := by
  have hmem : ∀ e, e ∈ s.timerList.erase event ↔ e ≠ event ∧ e ∈ s.timerList :=
    fun e => h.nodup.mem_erase_iff
  have hsor : (s.timerList.erase event).Pairwise (fun e e' => s'.trigger e ≤ s'.trigger e') := by
    apply (h.sorted.sublist List.erase_sublist).imp_of_mem
    grind [State.trigger]
  have hnod : (s.timerList.erase event).Nodup := h.nodup.erase event
  have hnot : event ∉ s.timerList.erase event := fun he => ((hmem event).mp he).1 rfl
  have htra' : ∀ e, Tracks (s'.events e) (lastSetting e s'.log) (signalCount e s'.log) := by
    intro e
    by_cases he : e = event
    · exact he ▸ htra
    · have hne : entry.subject ≠ e := by rw [hent]; exact Ne.symm he
      rw [hoth e he, hlog, lastSetting_other hne, signalCount_other hne]
      exact h.tracks e
  rcases hlist with ⟨hlist, hlin⟩ | ⟨hlist, hlin⟩
  · refine ⟨hlist ▸ hsor, hlist ▸ hnod, fun e => ?_, htra', hsig⟩
    by_cases he : e = event
    · simp [he, hlist, hnot, hlin]
    · rw [hlist, hmem, hoth e he, ← h.linked e]
      simp [he]
  · have hperm := insertLoop_perm s'.trigger event (s.timerList.erase event)
    refine ⟨hlist ▸ insertLoop_sorted hsor event,
      hlist ▸ hperm.nodup_iff.mpr (List.nodup_cons.mpr ⟨hnot, hnod⟩), fun e => ?_, htra',
      hsig⟩
    rw [hlist, hperm.mem_iff, List.mem_cons, hmem]
    by_cases he : e = event
    · simp [he, hlin]
    · rw [hoth e he, ← h.linked e]
      simp [he]

lemma coreTimerTick_same (duration : ℕ) (s : State) :
    (coreTimerTick duration s).events = s.events ∧
      (coreTimerTick duration s).timerList = s.timerList ∧
      (coreTimerTick duration s).log = s.log ∧
      (coreTimerTick duration s).systemTime = u64 (s.systemTime + duration) := by
  unfold coreTimerTick
  dsimp only
  split
  · simp_all
  · split_ifs <;> simp_all [State.signalCheck]

lemma ticks_same (durations : List ℕ) (s : State) (hwrap : s.systemTime + durations.sum < 2 ^ 64) :
    (durations.foldl (fun s duration => coreTimerTick duration s) s).events = s.events ∧
      (durations.foldl (fun s duration => coreTimerTick duration s) s).timerList = s.timerList ∧
      (durations.foldl (fun s duration => coreTimerTick duration s) s).log = s.log ∧
      (durations.foldl (fun s duration => coreTimerTick duration s) s).systemTime =
        s.systemTime + durations.sum := by
  induction durations generalizing s with
  | nil => simp
  | cons duration rest ih =>
    obtain ⟨heve, hlist, hlog, htime⟩ := coreTimerTick_same duration s
    grind [u64_of_lt]

section Setting

variable {timerPeriod triggerTime : ℕ} {type : ℕ}

/-- `CoreSetTimer` does not reject the event. -/
def TimerEvent (s : State) (event : EventId) : Prop :=
  event ≠ 0 ∧ (s.events event).signature = true ∧ (s.events event).timer = true

/-- What an accepted call of `CoreSetTimer` has done. -/
structure SetDone (s : State) (event : EventId) (setting : Setting) (s' : State) : Prop where
  others : ∀ e ≠ event, s'.events e = s.events e
  log : s'.log = .set event setting.type setting.delay setting.time :: s.log
  systemTime : s'.systemTime = s.systemTime
  time : setting.time = s.systemTime
  cancelled : setting.type = .cancel →
    s'.timerList = s.timerList.erase event ∧ (s'.events event).linked = false
  armed : setting.type ≠ .cancel →
    s'.timerList = insertLoop s'.trigger event (s.timerList.erase event) ∧
      s'.events event = { s.events event with
        linked := true, triggerTime := u64 (setting.time + setting.delay),
        period := setting.period }

lemma disarm_spec (s : State) (event : EventId)
    (hlin : event ∈ s.timerList ↔ (s.events event).linked = true) :
    (disarm event s).timerList = s.timerList.erase event ∧
      (disarm event s).events = Function.update s.events event
        { s.events event with linked := false, triggerTime := 0, period := 0 } ∧
      (disarm event s).log = s.log ∧ (disarm event s).systemTime = s.systemTime := by
  unfold disarm
  split_ifs with h
  · simp [State.update, State.removeEntry]
  · have hnot : event ∉ s.timerList := fun he => h (hlin.mp he)
    rw [Bool.not_eq_true] at h
    exact ⟨(List.erase_of_not_mem hnot).symm, by simp [State.update, h], rfl, rfl⟩

lemma arm_spec (event : EventId) (triggerTime period : ℕ) (s : State) :
    (arm event triggerTime period s).timerList =
        insertLoop (arm event triggerTime period s).trigger event s.timerList ∧
      (arm event triggerTime period s).events = Function.update s.events event
        { s.events event with
          linked := true, triggerTime := u64 (s.systemTime + triggerTime), period := period } ∧
      (arm event triggerTime period s).log = s.log ∧
      (arm event triggerTime period s).systemTime = s.systemTime := by
  unfold arm
  dsimp only
  split_ifs <;> exact ⟨coreInsertEventTimer_timerList _ event, by simp [State.update], rfl, rfl⟩

lemma setDone_arm (hlin : event ∈ s.timerList ↔ (s.events event).linked = true)
    (setting : Setting) (htype : setting.type ≠ .cancel) (htime : setting.time = s.systemTime) :
    SetDone s event setting (arm event setting.delay setting.period (disarm event
      { s with log := .set event setting.type setting.delay setting.time :: s.log })) := by
  obtain ⟨hlist, heve, hlog, hsys⟩ := disarm_spec
    { s with log := .set event setting.type setting.delay setting.time :: s.log } event hlin
  obtain ⟨hlis', heve', hlog', hsys'⟩ := arm_spec event setting.delay setting.period
    (disarm event { s with log := .set event setting.type setting.delay setting.time :: s.log })
  refine ⟨fun e he => ?_, hlog'.trans hlog, hsys'.trans hsys, htime,
    fun h => absurd h htype, fun _ => ⟨?_, ?_⟩⟩
  · simp [heve', heve, he]
  · rw [hlis', hlist]
  · rw [heve', Function.update_self, hsys, heve, Function.update_self, htime]

lemma coreSetTimer_cases (h : Good s) (timerPeriod : ℕ) (event : EventId) (type triggerTime : ℕ) :
    (coreSetTimer timerPeriod event type triggerTime s).2 = s ∨
      ∃ type', TimerEvent s event ∧ timerDelay type = some type' ∧
        SetDone s event ⟨type', requested timerPeriod type' triggerTime, s.systemTime⟩
          (coreSetTimer timerPeriod event type triggerTime s).2 := by
  unfold coreSetTimer
  by_cases hnull : event = 0
  · exact .inl (by rw [if_pos hnull])
  by_cases hsig : (s.events event).signature = false
  · exact .inl (by rw [if_neg hnull, if_pos hsig])
  rw [if_neg hnull, if_neg hsig]
  cases htype : timerDelay type with
  | none => exact .inl rfl
  | some type' =>
    by_cases htim : (s.events event).timer = false
    · exact .inl (by simp only [htim, if_true])
    refine .inr ⟨type', ⟨hnull, by simpa using hsig, by simpa using htim⟩, rfl, ?_⟩
    simp only [htim]
    cases type' with
    | cancel =>
      obtain ⟨hlist, heve, hlog, hsys⟩ := disarm_spec
        { s with
          log := .set event .cancel (requested timerPeriod .cancel triggerTime) s.systemTime ::
            s.log } event (h.linked event)
      exact ⟨fun e he => by simp [heve, he], hlog, hsys, rfl,
        fun _ => ⟨hlist, by simp [heve]⟩, fun hne => absurd rfl hne⟩
    | periodic =>
      exact setDone_arm (h.linked event)
        ⟨.periodic, requested timerPeriod .periodic triggerTime, s.systemTime⟩ nofun rfl
    | relative =>
      exact setDone_arm (h.linked event)
        ⟨.relative, requested timerPeriod .relative triggerTime, s.systemTime⟩ nofun rfl

lemma good_setDone {setting : Setting} (h : Good s) (hdone : SetDone s event setting s')
    (hwrap : setting.type ≠ .cancel → setting.time + setting.delay < 2 ^ 64) : Good s' := by
  have hlast : lastSetting event s'.log = some setting := by rw [hdone.log, lastSetting_set_self]
  have hcnt : signalCount event s'.log = 0 := by rw [hdone.log, signalCount_set_self]
  refine h.of_event event _ rfl hdone.others hdone.log ?_ ?_
    (hdone.log ▸ signalsInTime_set h.signals)
  · by_cases htype : setting.type = .cancel
    · exact .inl (hdone.cancelled htype)
    · obtain ⟨hlist, heve⟩ := hdone.armed htype
      exact .inr ⟨hlist, by rw [heve]⟩
  · rw [hlast, hcnt]
    by_cases htype : setting.type = .cancel
    · have hunl := (hdone.cancelled htype).2
      exact ⟨by simp [hunl, htype], by simp [hunl], by simp [hunl], by simp [hunl], by simp⟩
    · obtain ⟨-, heve⟩ := hdone.armed htype
      rw [heve, u64_of_lt (hwrap htype)]
      exact ⟨by simp [htype], by simp, by simp, by simp, by simp⟩

end Setting

/-- The times at which an expired timer of a period is put back do not wrap. -/
def RearmFits (now : ℕ) (s : State) (event : EventId) : Prop :=
  s.trigger event + (s.events event).period < 2 ^ 64 ∧
    (s.trigger event + (s.events event).period ≤ now → now + (s.events event).period < 2 ^ 64)

lemma expire_periodic {rest : List EventId} (hlist : s.timerList = event :: rest)
    (hper : (s.events event).period ≠ 0) (hexp : s.trigger event ≤ now)
    (hwrap : RearmFits now s event) :
    ∃ triggerTime, now ≤ triggerTime ∧ s.trigger event ≤ triggerTime ∧
      (s.trigger event = now → now < triggerTime) ∧
      (triggerTime ≤ now → now + (s.events event).period < 2 ^ 64) ∧
      (expire now s event).timerList = insertLoop (expire now s event).trigger event rest ∧
      (expire now s event).events = Function.update s.events event
        { s.events event with linked := true, triggerTime := triggerTime } ∧
      (expire now s event).log = .signalled event s.systemTime :: s.log ∧
      (expire now s event).systemTime = s.systemTime := by
  have hrest : ((s.removeEntry event).signal event).timerList = rest := by
    simp [State.removeEntry, State.signal, hlist]
  have heve : ((s.removeEntry event).signal event).events =
      Function.update s.events event { s.events event with linked := false } := rfl
  have htri : ((s.removeEntry event).signal event).trigger event = s.trigger event := by
    simp [State.trigger, heve]
  unfold State.trigger at hexp
  unfold expire rearm
  simp only [heve, htri, Function.update_self, hper, ne_eq, not_false_eq_true, if_true,
    u64_of_lt hwrap.1]
  split_ifs with hlate
  · refine ⟨now, le_rfl, hexp, fun h => absurd hlate (by omega), fun _ => hwrap.2 hlate, ?_,
      ?_, rfl, rfl⟩
    · rw [coreInsertEventTimer_timerList]
      exact congrArg _ hrest
    · simp [State.update, heve]
  · refine ⟨s.trigger event + (s.events event).period, by omega, by omega, fun _ => by omega,
      fun h => absurd h hlate, ?_, ?_, rfl, rfl⟩
    · rw [coreInsertEventTimer_timerList]
      exact congrArg _ hrest
    · simp [State.update, heve]

lemma expire_once {rest : List EventId} (now : ℕ) (hlist : s.timerList = event :: rest)
    (hper : (s.events event).period = 0) :
    (expire now s event).timerList = rest ∧
      (expire now s event).events =
        Function.update s.events event { s.events event with linked := false } ∧
      (expire now s event).log = .signalled event s.systemTime :: s.log ∧
      (expire now s event).systemTime = s.systemTime := by
  unfold expire
  rw [if_neg (by simp [State.signal, State.removeEntry, State.update, hper])]
  exact ⟨by simp [State.signal, State.removeEntry, hlist], rfl, rfl, rfl⟩

lemma good_expire {rest : List EventId} (h : Good s) (hlist : s.timerList = event :: rest)
    (hexp : s.trigger event ≤ now) (hnow : now ≤ s.systemTime)
    (hwrap : (s.events event).period ≠ 0 → RearmFits now s event) :
    Good (expire now s event) := by
  have hlin : (s.events event).linked = true := (h.linked event).mp (by simp [hlist])
  have hera : s.timerList.erase event = rest := by simp [hlist]
  obtain ⟨setting, hlast, htype, hcnt⟩ := (h.tracks event).armed.mp hlin
  have hper := (h.tracks event).period hlin setting hlast
  have hdue := (h.tracks event).due hlin setting hlast
  have hrela : setting.type = .relative → setting.period = 0 := by
    intro hrel
    simp [Setting.period, hrel]
  have hsig : SignalsInTime (.signalled event s.systemTime :: s.log) :=
    signalsInTime_signalled h.signals hlast htype (hdue.trans (hexp.trans hnow))
      (fun hrel => hcnt (hrela hrel))
  by_cases hzero : (s.events event).period = 0
  · obtain ⟨hlis', heve, hlog, -⟩ := expire_once now hlist hzero
    refine h.of_event event (.signalled event s.systemTime) rfl
      (fun e he => by simp [heve, he]) hlog (.inl ⟨by rw [hlis', hera], by simp [heve]⟩) ?_
      (hlog ▸ hsig)
    rw [hlog, lastSetting_signalled, signalCount_signalled_self, hlast, heve,
      Function.update_self, hcnt (hper.symm.trans hzero)]
    refine ⟨?_, nofun, nofun, nofun, by simp⟩
    simp [← hper, hzero]
  · obtain ⟨triggerTime, hge, hle, -, -, hlis', heve, hlog, -⟩ :=
      expire_periodic hlist hzero hexp (hwrap hzero)
    refine h.of_event event (.signalled event s.systemTime) rfl
      (fun e he => by simp [heve, he]) hlog (.inr ⟨by rw [hlis', hera], by simp [heve]⟩) ?_
      (hlog ▸ hsig)
    rw [hlog, lastSetting_signalled, hlast, heve, Function.update_self]
    rw [hper] at hzero
    refine ⟨?_, ?_, ?_, ?_, ?_⟩
    · simp [htype, hzero]
    · simpa using hper
    · simpa using hdue.trans hle
    · simp [hzero]
    · simp [hzero]

/-- How often the scan may still come to a timer: a timer that has fallen behind is moved to the
time of the scan first. -/
def weight (now trigger : ℕ) : ℕ := if now < trigger then 0 else if trigger = now then 1 else 2

def work (now : ℕ) (s : State) : ℕ := (s.timerList.map (fun e => weight now (s.trigger e))).sum

/-- What holds whenever the scan comes to the head of its loop. -/
structure Scanning (now : ℕ) (ticks : List (List ℕ)) (s : State) : Prop where
  good : Good s
  now_le : now ≤ s.systemTime
  ticks_lt : s.systemTime + ticks.flatten.sum < 2 ^ 64
  fits : ∀ e ∈ s.timerList, s.trigger e ≤ now → (s.events e).period ≠ 0 → RearmFits now s e

variable {ticks : List (List ℕ)}

lemma Scanning.interrupt (h : Scanning now ticks s) (hs' :
    (ticks.headD []).foldl (fun s duration => coreTimerTick duration s) s = s') :
    Scanning now ticks.tail s' ∧ work now s' = work now s := by
  have hsum : ticks.flatten.sum = (ticks.headD []).sum + ticks.tail.flatten.sum := by
    cases ticks <;> simp
  have hlt := h.ticks_lt
  obtain ⟨heve, hlist, hlog, htime⟩ := ticks_same (ticks.headD []) s (by omega)
  rw [hs'] at heve hlist hlog htime
  have htri : s'.trigger = s.trigger := by
    funext e
    simp only [State.trigger, heve]
  refine ⟨⟨h.good.of_time heve hlist hlog, ?_, ?_, ?_⟩, ?_⟩
  · exact h.now_le.trans (by rw [htime]; exact Nat.le_add_right _ _)
  · rw [htime]
    omega
  · unfold RearmFits
    rw [hlist, heve, htri]
    exact h.fits
  · rw [work, work, hlist, htri]

lemma work_cons {rest : List EventId} {e : IEvent} (hrest : event ∉ rest)
    (heve : s'.events = Function.update s.events event e) :
    (rest.map (fun e => weight now (s'.trigger e))).sum =
      (rest.map (fun e => weight now (s.trigger e))).sum := by
  congr 1
  apply List.map_congr_left
  intro e' he'
  rw [State.trigger, State.trigger, heve, Function.update_of_ne (ne_of_mem_of_not_mem he' hrest)]

lemma Scanning.expire {rest : List EventId} (h : Scanning now ticks s)
    (hlist : s.timerList = event :: rest) (hexp : s.trigger event ≤ now) :
    Scanning now ticks (expire now s event) ∧ work now (Timer.expire now s event) < work now s := by
  have hmem : event ∈ s.timerList := by simp [hlist]
  have hrest : event ∉ rest := (List.nodup_cons.mp (hlist ▸ h.good.nodup)).1
  have hwork : work now s =
      weight now (s.trigger event) + (rest.map (fun e => weight now (s.trigger e))).sum := by
    rw [work, hlist, List.map_cons, List.sum_cons]
  have hgood := good_expire h.good hlist hexp h.now_le (h.fits event hmem hexp)
  by_cases hzero : (s.events event).period = 0
  · obtain ⟨hlis', heve, -, htime⟩ := expire_once now hlist hzero
    refine ⟨⟨hgood, htime ▸ h.now_le, htime ▸ h.ticks_lt, fun e he => ?_⟩, ?_⟩
    · rw [hlis'] at he
      rw [RearmFits, State.trigger, heve, Function.update_of_ne (ne_of_mem_of_not_mem he hrest)]
      exact h.fits e (by simp [hlist, he])
    · rw [hwork, work, hlis', work_cons hrest heve, weight, if_neg (not_lt.mpr hexp)]
      split_ifs <;> omega
  · have hlt := h.fits event hmem hexp hzero
    obtain ⟨triggerTime, hge, -, hmove, haga, hlis', heve, -, htime⟩ :=
      expire_periodic hlist hzero hexp hlt
    have hperm := insertLoop_perm (Timer.expire now s event).trigger event rest
    refine ⟨⟨hgood, htime ▸ h.now_le, htime ▸ h.ticks_lt, fun e he => ?_⟩, ?_⟩
    · rw [hlis', hperm.mem_iff] at he
      rcases List.mem_cons.mp he with rfl | he
      · rw [RearmFits, State.trigger, heve, Function.update_self]
        grind
      · rw [RearmFits, State.trigger, heve, Function.update_of_ne (ne_of_mem_of_not_mem he hrest)]
        exact h.fits e (by simp [hlist, he])
    · have htri : (Timer.expire now s event).trigger event = triggerTime := by
        rw [State.trigger, heve, Function.update_self]
      rw [hwork, work, hlis', (hperm.map _).sum_eq, List.map_cons, List.sum_cons,
        work_cons hrest heve, htri]
      unfold weight
      split_ifs <;> omega

lemma checkTimersLoop_sound (fuel : ℕ) (h : Scanning now ticks s)
    (hrun : checkTimersLoop now fuel ticks s = some s') :
    Good s' ∧ ∀ e ∈ s'.timerList, now < s'.trigger e := by
  induction fuel generalizing ticks s with
  | zero => simp [checkTimersLoop] at hrun
  | succ fuel ih =>
    rw [checkTimersLoop] at hrun
    generalize hs₁ : (ticks.headD []).foldl (fun s duration => coreTimerTick duration s) s = s₁
      at hrun
    have hscan := (h.interrupt hs₁).1
    cases hlist : s₁.timerList with
    | nil =>
      simp only [hlist, Option.some.injEq] at hrun
      exact hrun ▸ ⟨hscan.good, by simp [hlist]⟩
    | cons event rest =>
      simp only [hlist] at hrun
      split_ifs at hrun with hlat
      · rw [Option.some.injEq] at hrun
        subst hrun
        refine ⟨hscan.good, fun e he => ?_⟩
        have hsor := List.pairwise_cons.mp (hlist ▸ hscan.good.sorted)
        grind
      · exact ih (hscan.expire hlist (not_lt.mp hlat)).1 hrun

lemma checkTimersLoop_ends (fuel : ℕ) (h : Scanning now ticks s) (hfuel : work now s < fuel) :
    ∃ s', checkTimersLoop now fuel ticks s = some s' := by
  induction fuel generalizing ticks s with
  | zero => omega
  | succ fuel ih =>
    rw [checkTimersLoop]
    generalize hs₁ : (ticks.headD []).foldl (fun s duration => coreTimerTick duration s) s = s₁
    obtain ⟨hscan, hwork⟩ := h.interrupt hs₁
    cases hlist : s₁.timerList with
    | nil => exact ⟨s₁, by simp⟩
    | cons event rest =>
      dsimp only
      split_ifs with hlat
      · exact ⟨s₁, rfl⟩
      · obtain ⟨hnext, hless⟩ := hscan.expire hlist (not_lt.mp hlat)
        exact ih hnext (by omega)

/-! ### Whole runs -/

/-- The step computes no trigger time, and while a scan is under way no system time, of `2 ^ 64`
or more. -/
def NoWrap : Op → State → Prop
  | .setTimer timerPeriod event type triggerTime, s => TimerEvent s event →
    ∀ type', timerDelay type = some type' → type' ≠ .cancel →
      s.systemTime + requested timerPeriod type' triggerTime < 2 ^ 64
  | .timerTick _, _ => True
  | .closeEvent _, _ => True
  | .checkTimers ticks, s => s.systemTime + ticks.flatten.sum < 2 ^ 64 ∧
    ∀ e ∈ s.timerList, s.trigger e ≤ s.systemTime → (s.events e).period ≠ 0 →
      RearmFits s.systemTime s e

lemma Good.scanning (h : Good s) (hwrap : NoWrap (.checkTimers ticks) s) :
    Scanning s.systemTime ticks { s with checkSignalled := false } where
  good := h.of_time rfl rfl rfl
  now_le := le_rfl
  ticks_lt := hwrap.1
  fits := hwrap.2

lemma good_coreSetTimer {timerPeriod type triggerTime : ℕ} (h : Good s)
    (hwrap : NoWrap (.setTimer timerPeriod event type triggerTime) s) :
    Good (coreSetTimer timerPeriod event type triggerTime s).2 := by
  rcases coreSetTimer_cases h timerPeriod event type triggerTime with
    heq | ⟨type', heve, htype, hdone⟩
  · rw [heq]
    exact h
  · exact good_setDone h hdone (hwrap heve type' htype)

lemma good_signature (h : Good s) (event : EventId) (signature : Bool) :
    Good (s.update event ({ · with signature := signature })) := by
  have heve : ∀ e, ∃ signature', (s.update event ({ · with signature := signature })).events e =
      { s.events e with signature := signature' } := by
    intro e
    by_cases he : e = event
    · exact ⟨signature, by simp [State.update, he]⟩
    · exact ⟨(s.events e).signature, by simp [State.update, he]⟩
  have htri : (s.update event ({ · with signature := signature })).trigger = s.trigger := by
    funext e
    obtain ⟨_, he⟩ := heve e
    rw [State.trigger, he, State.trigger]
  refine ⟨?_, h.nodup, fun e => ?_, fun e => ?_, h.signals⟩
  · rw [htri]
    exact h.sorted
  · obtain ⟨_, he⟩ := heve e
    rw [he]
    exact h.linked e
  · obtain ⟨_, he⟩ := heve e
    have htra := h.tracks e
    rw [he]
    exact ⟨htra.armed, htra.period, htra.due, htra.exact_due, htra.once⟩

lemma good_coreCloseEvent (h : Good s) (event : EventId) : Good (coreCloseEvent event s).2 := by
  unfold coreCloseEvent
  split_ifs with hnull hsig htim
  · exact h
  · exact h
  · exact good_signature (good_coreSetTimer h (by simp [NoWrap, timerDelay])) event false
  · exact good_signature h event false

lemma Reachable.good (h : Reachable NoWrap s) : Good s := by
  induction h with
  | initial h => exact good_initial h
  | step h hok hstep ih =>
    cases hstep with
    | setTimer => exact good_coreSetTimer ih hok
    | timerTick duration =>
      obtain ⟨heve, hlist, hlog, -⟩ := coreTimerTick_same duration _
      exact ih.of_time heve hlist hlog
    | closeEvent event => exact good_coreCloseEvent ih event
    | checkTimers hsig hrun =>
      obtain ⟨fuel, hrun⟩ := hrun
      exact (checkTimersLoop_sound fuel (ih.scanning hok) hrun).1

lemma Good.checked (h : Good s) (hlat : ∀ e ∈ s.timerList, now < s.trigger e) : Checked now s where
  later := hlat
  once event setting hlast htype hdue := by
    have hper : setting.period = 0 := by simp [Setting.period, htype]
    have hle := (h.tracks event).once setting hlast hper
    have hne : signalCount event s.log ≠ 0 := by
      intro hzero
      have hlin := (h.tracks event).armed.mpr ⟨setting, hlast, by simp [htype], fun _ => hzero⟩
      have htri := (h.tracks event).exact_due hlin setting hlast hper
      have := hlat event ((h.linked event).mpr hlin)
      unfold State.trigger at this
      omega
    omega

theorem timersWork_of_noWrap (h : Reachable NoWrap s) : TimersWork NoWrap s where
  list := h.good.listSorted
  signals := h.good.signals
  check ticks _ hwrap := by
    have hscan := h.good.scanning hwrap
    refine ⟨?_, fun s' hrun => ?_⟩
    · obtain ⟨s', hrun⟩ := checkTimersLoop_ends _ hscan (Nat.lt_succ_self _)
      exact ⟨s', _, hrun⟩
    · obtain ⟨fuel, hrun⟩ := hrun
      obtain ⟨hgood, hlater⟩ := checkTimersLoop_sound fuel hscan hrun
      exact hgood.checked hlater

/-- All events are timers, and none is set. -/
def idle : State where
  events _ := ⟨true, true, false, 0, 0⟩
  timerList := []
  systemTime := 0
  checkSignalled := false
  log := []

lemma idle_initial : Initial idle := ⟨rfl, fun _ => rfl, rfl, rfl⟩

/-- A relative timer has expired and the scan is pending. -/
theorem timersWork_relative_expired :
    (coreTimerTick 7 (coreSetTimer 0 1 2 5 idle).2).checkSignalled = true ∧
      TimersWork NoWrap (coreTimerTick 7 (coreSetTimer 0 1 2 5 idle).2) := by
  refine ⟨by decide, timersWork_of_noWrap (.step (.step (.initial idle_initial) ?_
    (.setTimer 0 1 2 5 idle)) (by trivial) (.timerTick 7 _))⟩
  intro _ type' htype _
  obtain rfl : type' = .relative := by simpa [timerDelay] using htype.symm
  decide

lemma checkTimersLoop_stuck (event : EventId) (fuel : ℕ) (hlist : s.timerList = [event])
    (hper : (s.events event).period ≠ 0) (hexp : s.trigger event ≤ now)
    (hback : u64 (s.trigger event + (s.events event).period) ≤ now)
    (haga : u64 (now + (s.events event).period) ≤ now) :
    checkTimersLoop now fuel [] s = none := by
  induction fuel generalizing s with
  | zero => rfl
  | succ fuel ih =>
    have hnext : (expire now s event).timerList = [event] ∧ (expire now s event).events event =
        { s.events event with linked := true, triggerTime := now } := by
      unfold State.trigger at hback
      simp [expire, rearm, State.signal, State.removeEntry, State.update, State.trigger, hlist,
        hper, hback, coreInsertEventTimer, State.signalCheck, insertLoop]
    grind [checkTimersLoop, State.trigger]

/-- A periodic timer with the largest period, set at the time 5. -/
def endless : State := coreTimerTick 1 (coreSetTimer 0 1 1 (2 ^ 64 - 1) (coreTimerTick 5 idle)).2

theorem endless_scan :
    ∃ s, Reachable (fun _ _ => True) s ∧ ¬TimersWork (fun _ _ => True) s := by
  refine ⟨endless, .step (.step (.step (.initial idle_initial) trivial (.timerTick 5 idle)) trivial
    (.setTimer 0 1 1 (2 ^ 64 - 1) _)) trivial (.timerTick 1 _), fun h => ?_⟩
  obtain ⟨⟨s', fuel, hrun⟩, -⟩ := h.check [] (by decide) trivial
  rw [checkTimersLoop_stuck 1 fuel (by decide) (by decide) (by decide) (by decide)
    (by decide)] at hrun
  cases hrun

end Edk2.Timer
