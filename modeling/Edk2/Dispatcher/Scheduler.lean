import Mathlib.Data.List.Chain
import Mathlib.Data.List.Nodup
import Mathlib.Data.List.Perm.Subperm
import Edk2.Dispatcher.Dependency

/-!
# The states of the discovered drivers

`Core/Dxe/Dispatcher/Dispatcher.c`. A driver is a number that stands for the pointer to its
`EFI_CORE_DRIVER_ENTRY`. `CoreDispatcher` is a machine that takes one driver from the scheduled
queue at a time, and searches the discovered list when the queue is empty; whatever a driver that
it starts calls of these services comes between two of its steps. What the firmware volume and the
loader answer, and the value of a dependency expression, are inputs of the steps.
-/

namespace Edk2.Dispatcher.Scheduler

abbrev DriverId := ℕ

/-- `EFI_CORE_DRIVER_ENTRY`. -/
structure CoreDriverEntry where
  fileName : Guid
  fvHandle : Handle
  isFvImage : Bool
  /-- `ImageHandle != NULL`. -/
  imageHandle : Bool
  dependent : Bool
  unrequested : Bool
  scheduled : Bool
  untrusted : Bool
  initialized : Bool
  depexProtocolError : Bool
  before : Bool
  after : Bool
  beforeAfterGuid : Guid
deriving DecidableEq, Repr

/-- The entry of a file after `AllocateZeroPool`. -/
def CoreDriverEntry.blank (fileName : Guid) (fvHandle : Handle) (isFvImage : Bool) :
    CoreDriverEntry :=
  ⟨fileName, fvHandle, isFvImage, false, false, false, false, false, false, false, false, false, []⟩

/-- What `Fv->ReadSection` returns for the dependency section. -/
inductive ReadSection
  /-- `EFI_PROTOCOL_ERROR`. -/
  | protocolError
  /-- Another error: there is no such section. -/
  | error
  /-- The first opcode of the expression and the GUID behind it. -/
  | depex (opcode : UInt8) (guid : Guid)
deriving DecidableEq, Repr

/-- How a driver leaves the scheduled queue. -/
inductive Outcome
  | started
  | processedFv
  | untrusted
  | notLoaded
deriving DecidableEq, Repr

/-- What happens to the drivers. -/
inductive Entry
  /-- The dependency expression was read. -/
  | read (driver : DriverId)
  /-- The dispatcher put the driver on the scheduled queue. -/
  | queued (driver : DriverId)
  /-- `CoreTrust` put it there. -/
  | trusted (driver : DriverId)
  /-- The driver was taken from the queue. -/
  | taken (driver : DriverId) (outcome : Outcome)
deriving DecidableEq, Repr

/-- Where `CoreDispatcher` is; but for `idle`, `gDispatcherRunning` is set. -/
inductive Phase
  | idle
  /-- `DxeDispatchEvent` could not be created. -/
  | failed
  /-- At the test of the inner loop. -/
  | draining
  /-- Before the search of the discovered list. -/
  | searching
deriving DecidableEq, Repr

structure State where
  entry : DriverId → CoreDriverEntry
  /-- `mDiscoveredList`. -/
  discovered : List DriverId
  /-- `mScheduledQueue`. -/
  queue : List DriverId
  phase : Phase
  /-- What has happened so far, the latest first. -/
  log : List Entry

/-- Write some fields of an entry. -/
def State.update (s : State) (d : DriverId) (f : CoreDriverEntry → CoreDriverEntry) : State :=
  { s with entry := Function.update s.entry d (f (s.entry d)) }

def State.record (s : State) (entry : Entry) : State := { s with log := entry :: s.log }

/-! ### Dependency sections -/

def corePreProcessDepex (opcode : UInt8) (guid : Guid) (e : CoreDriverEntry) : CoreDriverEntry :=
  let e := if opcode = efiDepSor then { e with unrequested := true }
    else { e with dependent := true }
  let e := if opcode = efiDepBefore then { e with before := true }
    else if opcode = efiDepAfter then { e with after := true }
    else e
  if e.before || e.after then { e with beforeAfterGuid := guid } else e

def coreGetDepexSectionAndPreProcess (section? : ReadSection) (e : CoreDriverEntry) :
    CoreDriverEntry :=
  match section? with
  | .protocolError => { e with depexProtocolError := true }
  | .error => { e with dependent := true, depexProtocolError := false }
  | .depex opcode guid => { corePreProcessDepex opcode guid e with depexProtocolError := false }

/-- Read the section of a driver. -/
def State.readDepex (s : State) (d : DriverId) (section? : ReadSection) : State :=
  let s := s.update d (coreGetDepexSectionAndPreProcess section?)
  if section? = .protocolError then s else s.record (.read d)

/-- `CoreAddToDriverList`, with the entry from the pool. -/
def coreAddToDriverList (d : DriverId) (fileName : Guid) (fvHandle : Handle) (isFvImage : Bool)
    (section? : ReadSection) (s : State) : State :=
  let s := s.update d (fun _ => .blank fileName fvHandle isFvImage)
  let s := s.readDepex d section?
  { s with discovered := s.discovered ++ [d] }

/-! ### Requests -/

def coreSchedule (firmwareVolumeHandle : Handle) (driverName : Guid) (s : State) :
    EfiStatus × State :=
  match s.discovered.find? (fun d => (s.entry d).fvHandle == firmwareVolumeHandle &&
      (s.entry d).unrequested && driverName == (s.entry d).fileName) with
  | some d => (.success, s.update d ({ · with unrequested := false, dependent := true }))
  | none => (.notFound, s)

def coreTrust (firmwareVolumeHandle : Handle) (driverName : Guid) (s : State) :
    EfiStatus × State :=
  match s.discovered.find? (fun d => (s.entry d).fvHandle == firmwareVolumeHandle &&
      (s.entry d).untrusted && driverName == (s.entry d).fileName) with
  | some d =>
    let s := s.update d ({ · with untrusted := false, scheduled := true })
    (.success, { s with queue := s.queue ++ [d] }.record (.trusted d))
  | none => (.notFound, s)

/-! ### Scheduling -/

/-- Convert a driver from the Dependent to the Scheduled state. -/
def State.schedule (s : State) (d : DriverId) : State :=
  let s := s.update d ({ · with dependent := false, scheduled := true })
  { s with queue := s.queue ++ [d] }.record (.queued d)

/-- The driver `b` waits for `d`, before or after it. -/
def State.waits (s : State) (kind : CoreDriverEntry → Bool) (d b : DriverId) : Bool :=
  kind (s.entry b) && (s.entry b).dependent && b != d &&
    (s.entry d).fileName == (s.entry b).beforeAfterGuid

/-- Process the drivers on the discovered list that wait for `d`. -/
def insertWaiting (insert : State → DriverId → Option State) (kind : CoreDriverEntry → Bool)
    (d : DriverId) (s : State) : Option State :=
  s.discovered.foldlM (fun s b => if s.waits kind d b then insert s b else some s) s

/-- `CoreInsertOnScheduledQueueWhileProcessingBeforeAndAfter`; there is no result if the recursion
gets deeper than `depth`. -/
def coreInsertOnScheduledQueue : ℕ → State → DriverId → Option State
  | 0, _, _ => none
  | depth + 1, s, d => do
    let s ← insertWaiting (coreInsertOnScheduledQueue depth) CoreDriverEntry.before d s
    insertWaiting (coreInsertOnScheduledQueue depth) CoreDriverEntry.after d (s.schedule d)

/-- What a search of the discovered list gets from elsewhere. -/
structure Answers where
  readSection : DriverId → ReadSection
  /-- The value of the dependency expression of a driver. -/
  depex : DriverId → Bool

/-- `CoreIsSchedulable`: drivers that wait for another one are left to the insertion. -/
def coreIsSchedulable (answers : Answers) (s : State) (d : DriverId) : Bool :=
  if (s.entry d).after || (s.entry d).before then false else answers.depex d

/-- The body of the loop that searches the discovered list. -/
def searchDriver (answers : Answers) (depth : ℕ) (sr : State × Bool) (d : DriverId) :
    Option (State × Bool) :=
  let s := if (sr.1.entry d).depexProtocolError then sr.1.readDepex d (answers.readSection d)
    else sr.1
  if (s.entry d).dependent && coreIsSchedulable answers s d then
    (coreInsertOnScheduledQueue depth s d).map (·, true)
  else some (s, sr.2)

/-- The search for drivers to place on the scheduled queue, and `ReadyToRun`. -/
def search (answers : Answers) (depth : ℕ) (s : State) : Option (State × Bool) :=
  s.discovered.foldlM (searchDriver answers depth) (s, false)

/-! ### The dispatcher -/

/-- The driver `d` leaves the scheduled queue. -/
def State.take (s : State) (d : DriverId) (outcome : Outcome)
    (f : CoreDriverEntry → CoreDriverEntry) : State :=
  let s := s.update d (fun e => { f e with scheduled := false })
  { s with queue := s.queue.erase d }.record (.taken d outcome)

/-- The first driver `d` of the scheduled queue is loaded and started; `CoreLoadImage` returns
`status` and leaves `imageHandle`. -/
def drainHead (status : EfiStatus) (imageHandle : Bool) (d : DriverId) (s : State) : State :=
  let e := s.entry d
  if e.imageHandle = false ∧ e.isFvImage = false then
    if status.isError then
      if status = .securityViolation then
        s.take d .untrusted ({ · with imageHandle := imageHandle, untrusted := true })
      else s.take d .notLoaded ({ · with imageHandle := imageHandle, initialized := true })
    else s.take d .started ({ · with imageHandle := imageHandle, initialized := true })
  else s.take d (if e.isFvImage then .processedFv else .started) ({ · with initialized := true })

inductive Step : State → State → Prop
  | add {s : State} {d : DriverId} (hd : d ∉ s.discovered) (fileName : Guid) (fvHandle : Handle)
    (isFvImage : Bool) (section? : ReadSection) :
    Step s (coreAddToDriverList d fileName fvHandle isFvImage section? s)
  | schedule (s : State) (firmwareVolumeHandle : Handle) (driverName : Guid) :
    Step s (coreSchedule firmwareVolumeHandle driverName s).2
  | trust (s : State) (firmwareVolumeHandle : Handle) (driverName : Guid) :
    Step s (coreTrust firmwareVolumeHandle driverName s).2
  /-- `CoreDispatcher` is called. -/
  | dispatch {s : State} (hphase : s.phase = .idle) : Step s { s with phase := .draining }
  /-- It cannot create its event. -/
  | noEvent {s : State} (hphase : s.phase = .idle) : Step s { s with phase := .failed }
  | drain {s : State} {d : DriverId} {rest : List DriverId} (hphase : s.phase = .draining)
    (hqueue : s.queue = d :: rest) (status : EfiStatus) (imageHandle : Bool) :
    Step s (drainHead status imageHandle d s)
  | drained {s : State} (hphase : s.phase = .draining) (hqueue : s.queue = []) :
    Step s { s with phase := .searching }
  | search {s s' : State} {answers : Answers} {depth : ℕ} {readyToRun : Bool}
    (hphase : s.phase = .searching) (hsearch : search answers depth s = some (s', readyToRun)) :
    Step s { s' with phase := if readyToRun then .draining else .idle }

/-- No driver has been discovered. -/
structure Initial (s : State) : Prop where
  discovered : s.discovered = []
  queue : s.queue = []
  phase : s.phase = .idle
  log : s.log = []

/-- The states of the runs that meet a condition in every state. -/
inductive Reachable (ok : State → Prop) : State → Prop
  | initial {s : State} (h : Initial s) : Reachable ok s
  | step {s s' : State} (h : Reachable ok s) (hstep : Step s s') (hok : ok s') : Reachable ok s'

end Edk2.Dispatcher.Scheduler

/-!
## The recursion that fills the scheduled queue

The calls of the recursion that are under way form a chain: each driver waits for the one that it
was called for. If no two drivers have the same file name, no driver is twice on the chain, so the
recursion ends, and a driver whose turn has not come yet is scheduled by its own call only.
-/

namespace Edk2.Dispatcher.Scheduler

variable {s s' s'' : State} {d b x : DriverId} {frames : List DriverId}

@[simp] lemma update_entry_self (s : State) (d : DriverId) (f : CoreDriverEntry → CoreDriverEntry) :
    (s.update d f).entry d = f (s.entry d) := by simp [State.update]

lemma update_entry_of_ne {f : CoreDriverEntry → CoreDriverEntry} (h : b ≠ d) :
    (s.update d f).entry b = s.entry b := by simp [State.update, h]

@[simp] lemma schedule_entry_self (s : State) (d : DriverId) :
    (s.schedule d).entry d = { s.entry d with dependent := false, scheduled := true } := by
  simp [State.schedule, State.record, State.update]

lemma schedule_entry_of_ne (h : b ≠ d) : (s.schedule d).entry b = s.entry b := by
  simp [State.schedule, State.record, State.update, h]

/-! ### What the insertion does not change -/

/-- What a driver is, apart from its state. -/
def CoreDriverEntry.SameFile (e e' : CoreDriverEntry) : Prop :=
  e'.fileName = e.fileName ∧ e'.before = e.before ∧ e'.after = e.after ∧
    e'.beforeAfterGuid = e.beforeAfterGuid

/-- The discovered drivers are the same, and a driver that does not wait does not start to. -/
structure Later (s s' : State) : Prop where
  discovered : s'.discovered = s.discovered
  sameFile : ∀ d, (s.entry d).SameFile (s'.entry d)
  dependent : ∀ d, (s'.entry d).dependent = true → (s.entry d).dependent = true
  log : s.log <:+ s'.log

lemma Later.refl (s : State) : Later s s :=
  ⟨rfl, fun _ => ⟨rfl, rfl, rfl, rfl⟩, fun _ => id, List.suffix_refl _⟩

lemma Later.trans (h : Later s s') (h' : Later s' s'') : Later s s'' where
  discovered := h'.discovered.trans h.discovered
  sameFile d := by
    obtain ⟨h₁, h₂, h₃, h₄⟩ := h.sameFile d
    obtain ⟨h₁', h₂', h₃', h₄'⟩ := h'.sameFile d
    exact ⟨h₁'.trans h₁, h₂'.trans h₂, h₃'.trans h₃, h₄'.trans h₄⟩
  dependent d hd := h.dependent d (h'.dependent d hd)
  log := h.log.trans h'.log

lemma later_schedule (s : State) (d : DriverId) : Later s (s.schedule d) where
  discovered := rfl
  sameFile b := by
    by_cases h : b = d
    · subst h
      simp [CoreDriverEntry.SameFile]
    · rw [schedule_entry_of_ne h]
      exact ⟨rfl, rfl, rfl, rfl⟩
  dependent b hb := by
    by_cases h : b = d
    · subst h
      simp at hb
    · rwa [schedule_entry_of_ne h] at hb
  log := List.suffix_cons _ _

/-- The driver `d` is scheduled at the right moment: nothing that must come before it waits any
longer, and what it must come after has been scheduled. -/
structure InTurn (s : State) (d : DriverId) : Prop where
  discovered : d ∈ s.discovered
  dependent : (s.entry d).dependent = true
  before : ∀ b ∈ s.discovered, b ≠ d → (s.entry b).before = true →
    (s.entry d).fileName = (s.entry b).beforeAfterGuid → (s.entry b).dependent = false
  after : (s.entry d).after = true →
    ∃ y, (s.entry y).fileName = (s.entry d).beforeAfterGuid ∧ .queued y ∈ s.log

/-- Some drivers, but none of `frames`, are scheduled, each in its turn. -/
inductive Schedules (frames : List DriverId) : State → State → Prop
  | refl (s : State) : Schedules frames s s
  | step {s s' : State} {d : DriverId} (h : Schedules frames s s') (hturn : InTurn s' d)
    (hd : d ∉ frames) : Schedules frames s (s'.schedule d)

namespace Schedules

lemma later (h : Schedules frames s s') : Later s s' := by
  induction h with
  | refl => exact .refl _
  | step _ _ _ ih => exact ih.trans (later_schedule _ _)

lemma trans (h : Schedules frames s s') (h' : Schedules frames s' s'') :
    Schedules frames s s'' := by
  induction h' with
  | refl => exact h
  | step _ hturn hd ih => exact ih.step hturn hd

lemma weaken (h : Schedules (d :: frames) s s') : Schedules frames s s' := by
  induction h with
  | refl => exact .refl _
  | step _ hturn hd ih => exact ih.step hturn (fun hmem => hd (List.mem_cons_of_mem _ hmem))

lemma entry_frame (h : Schedules frames s s') (hd : d ∈ frames) : s'.entry d = s.entry d := by
  induction h with
  | refl => rfl
  | step _ _ hnot ih =>
    grind [schedule_entry_of_ne]

end Schedules

/-! ### The chain of calls -/

/-- No two drivers have the same file name. -/
def DistinctNames (s : State) : Prop :=
  ∀ d ∈ s.discovered, ∀ b ∈ s.discovered, (s.entry d).fileName = (s.entry b).fileName → d = b

/-- A driver waits before another one or after it, if at all. -/
def OneKind (s : State) : Prop :=
  ∀ d ∈ s.discovered, (s.entry d).before = true → (s.entry d).after = false

/-- The calls that are under way, the innermost first. -/
structure Frames (s : State) (frames : List DriverId) : Prop where
  distinct : DistinctNames s
  oneKind : OneKind s
  nodup : frames.Nodup
  discovered : ∀ d ∈ frames, d ∈ s.discovered
  chain : frames.IsChain (fun b d => (s.entry d).fileName = (s.entry b).beforeAfterGuid)
  root : ∀ d, frames.getLast? = some d → (s.entry d).before = false ∧ (s.entry d).after = false

lemma Frames.later (h : Frames s frames) (hlat : Later s s') : Frames s' frames where
  distinct := by
    intro d hd b hb heq
    rw [hlat.discovered] at hd hb
    rw [(hlat.sameFile d).1, (hlat.sameFile b).1] at heq
    exact h.distinct d hd b hb heq
  oneKind d hd hbefore := by
    rw [hlat.discovered] at hd
    rw [(hlat.sameFile d).2.1] at hbefore
    rw [(hlat.sameFile d).2.2.1]
    exact h.oneKind d hd hbefore
  nodup := h.nodup
  discovered := by
    rw [hlat.discovered]
    exact h.discovered
  chain := by
    apply h.chain.imp
    intro b d hbd
    rwa [(hlat.sameFile d).1, (hlat.sameFile b).2.2.2]
  root d hd := by
    rw [(hlat.sameFile d).2.1, (hlat.sameFile d).2.2.1]
    exact h.root d hd

/-- The driver of a new call is not on the chain yet: it would have been called for the same file
before. -/
lemma Frames.push (h : Frames s (d :: frames)) (hb : b ∈ s.discovered)
    (hkind : (s.entry b).before = true ∨ (s.entry b).after = true) (hne : b ≠ d)
    (hname : (s.entry d).fileName = (s.entry b).beforeAfterGuid) :
    Frames s (b :: d :: frames) := by
  have hnot : b ∉ frames := by
    intro hmem
    obtain ⟨inner, outer, rfl⟩ := List.append_of_mem hmem
    cases outer with
    | nil =>
      have hroot := h.root b (by rw [← List.cons_append, List.getLast?_concat])
      grind
    | cons p outer =>
      have hcha := h.chain
      rw [← List.cons_append, List.isChain_append] at hcha
      have hp := (List.isChain_cons_cons.mp hcha.2.1).1
      have hmem : p ∈ inner ++ b :: p :: outer := by simp
      have heq := h.distinct d (h.discovered d List.mem_cons_self) p
        (h.discovered p (List.mem_cons_of_mem _ hmem)) (hname.trans hp.symm)
      exact (List.nodup_cons.mp h.nodup).1 (heq ▸ hmem)
  refine ⟨h.distinct, h.oneKind, ?_, ?_, ?_, ?_⟩
  · refine List.nodup_cons.mpr ⟨fun hmem => ?_, h.nodup⟩
    grind
  · intro x hx
    rcases List.mem_cons.mp hx with rfl | hx
    · exact hb
    · exact h.discovered x hx
  · exact List.isChain_cons_cons.mpr ⟨hname, h.chain⟩
  · intro x hx
    rw [List.getLast?_cons_cons] at hx
    exact h.root x hx

lemma Frames.length_le (h : Frames s frames) : frames.length ≤ s.discovered.length :=
  (List.subperm_of_subset h.nodup h.discovered).length_le

/-! ### The insertion -/

lemma waits_iff {kind : CoreDriverEntry → Bool} : s.waits kind d b = true ↔
    kind (s.entry b) = true ∧ (s.entry b).dependent = true ∧ b ≠ d ∧
      (s.entry d).fileName = (s.entry b).beforeAfterGuid := by
  simp [State.waits, and_assoc]

/-- Drivers that wait for `d` are scheduled while the calls of `frames` are under way. -/
def Inserts (insert : State → DriverId → Option State) (kind : CoreDriverEntry → Bool)
    (frames : List DriverId) (d : DriverId) (s₀ : State) : Prop :=
  ∀ s b, Later s₀ s → b ∈ s.discovered → s.waits kind d b = true →
    ∃ s', insert s b = some s' ∧ Schedules frames s s' ∧ (s'.entry b).dependent = false

lemma insertWaiting_spec {insert : State → DriverId → Option State}
    {kind : CoreDriverEntry → Bool} (hins : Inserts insert kind frames d s)
    (hkind : ∀ e e' : CoreDriverEntry, e.SameFile e' → kind e' = kind e) :
    ∃ s', insertWaiting insert kind d s = some s' ∧ Schedules frames s s' ∧
      ∀ b ∈ s.discovered, b ≠ d → kind (s.entry b) = true →
        (s.entry d).fileName = (s.entry b).beforeAfterGuid → (s'.entry b).dependent = false := by
  have hloop : ∀ (list : List DriverId) (s₁ : State), Later s s₁ →
      (∀ b ∈ list, b ∈ s.discovered) →
      ∃ s', list.foldlM (fun s b => if s.waits kind d b then insert s b else some s) s₁ = some s' ∧
        Schedules frames s₁ s' ∧ ∀ b ∈ list, b ≠ d → kind (s.entry b) = true →
          (s.entry d).fileName = (s.entry b).beforeAfterGuid → (s'.entry b).dependent = false := by
    intro list
    induction list with
    | nil => exact fun s₁ _ _ => ⟨s₁, rfl, .refl s₁, by simp⟩
    | cons b list ih =>
      intro s₁ hlat hsub
      obtain ⟨s₂, hstep, hsch, hdone⟩ : ∃ s₂,
          (if s₁.waits kind d b then insert s₁ b else some s₁) = some s₂ ∧
            Schedules frames s₁ s₂ ∧ (b ≠ d → kind (s.entry b) = true →
              (s.entry d).fileName = (s.entry b).beforeAfterGuid →
              (s₂.entry b).dependent = false) := by
        have hfile := hlat.sameFile b
        by_cases hwai : s₁.waits kind d b = true
        · have hb : b ∈ s₁.discovered := hlat.discovered ▸ hsub b List.mem_cons_self
          obtain ⟨s₂, hrun, hsch, hdone⟩ := hins s₁ b hlat hb hwai
          exact ⟨s₂, by rw [if_pos hwai, hrun], hsch, fun _ _ _ => hdone⟩
        · refine ⟨s₁, by rw [if_neg hwai], .refl s₁, fun hne hk hname => ?_⟩
          by_contra hdep
          apply hwai
          rw [waits_iff, hkind _ _ hfile, hfile.2.2.2, (hlat.sameFile d).1]
          exact ⟨hk, by simpa using hdep, hne, hname⟩
      obtain ⟨s₃, hrest, hsch', hdon'⟩ := ih s₂ (hlat.trans hsch.later)
        (fun x hx => hsub x (List.mem_cons_of_mem _ hx))
      refine ⟨s₃, by rw [List.foldlM_cons, hstep]; exact hrest, hsch.trans hsch', ?_⟩
      intro x hx hne hk hname
      rcases List.mem_cons.mp hx with rfl | hx
      · have hfal := hdone hne hk hname
        by_contra hdep
        rw [Bool.not_eq_false] at hdep
        exact Bool.noConfusion (hfal.symm.trans (hsch'.later.dependent x hdep))
      · exact hdon' x hx hne hk hname
  exact hloop s.discovered s (.refl s) fun b hb => hb

theorem coreInsertOnScheduledQueue_spec (depth : ℕ) (hfra : Frames s (d :: frames))
    (hdept : s.discovered.length ≤ depth + frames.length)
    (hdepe : (s.entry d).dependent = true)
    (haft : (s.entry d).after = true →
      ∃ y, (s.entry y).fileName = (s.entry d).beforeAfterGuid ∧ .queued y ∈ s.log) :
    ∃ s', coreInsertOnScheduledQueue depth s d = some s' ∧ Schedules frames s s' ∧
      (s'.entry d).dependent = false := by
  induction depth generalizing s d frames with
  | zero =>
    have := hfra.length_le
    rw [List.length_cons] at this
    omega
  | succ depth ih =>
    -- one more call for a driver that waits for `d`
    have hcall : ∀ (kind : CoreDriverEntry → Bool) (s₀ : State), Later s s₀ →
        (∀ e, kind e = true → e.before = true ∨ e.after = true) →
        (∀ s₁ b, Later s₀ s₁ → b ∈ s₁.discovered → kind (s₁.entry b) = true →
          (s₁.entry b).after = true →
          (s₁.entry d).fileName = (s₁.entry b).beforeAfterGuid →
          ∃ y, (s₁.entry y).fileName = (s₁.entry b).beforeAfterGuid ∧ .queued y ∈ s₁.log) →
        Inserts (coreInsertOnScheduledQueue depth) kind (d :: frames) d s₀ := by
      intro kind s₀ hlat₀ hkind hque s₁ b hlat hb hwai
      obtain ⟨hk, hdep, hne, hname⟩ := waits_iff.mp hwai
      have hfra₁ := hfra.later (hlat₀.trans hlat)
      apply ih (hfra₁.push hb (hkind _ hk) hne hname) _ hdep
      · exact fun ha => hque s₁ b hlat hb hk ha hname
      · rw [(hlat₀.trans hlat).discovered, List.length_cons]
        omega
    obtain ⟨s₁, hrun₁, hsch₁, hdon₁⟩ := insertWaiting_spec (hcall CoreDriverEntry.before s
      (.refl s) (fun e he => .inl he) (fun s₁ b hlat hb hk ha _ => by
        have := (hfra.later hlat).oneKind b hb hk
        exact absurd (this.symm.trans ha) nofun)) (fun e e' h => h.2.1)
    have hd : s₁.entry d = s.entry d := hsch₁.entry_frame List.mem_cons_self
    have hturn : InTurn s₁ d := by
      refine ⟨(hfra.later hsch₁.later).discovered d List.mem_cons_self, hd ▸ hdepe, ?_, ?_⟩
      · intro b hb hne hbef hname
        rw [hsch₁.later.discovered] at hb
        rw [(hsch₁.later.sameFile b).2.1] at hbef
        rw [hd, (hsch₁.later.sameFile b).2.2.2] at hname
        exact hdon₁ b hb hne hbef hname
      · intro ha
        obtain ⟨y, hy, hque⟩ := haft (hd ▸ ha)
        refine ⟨y, ?_, hsch₁.later.log.mem hque⟩
        rw [(hsch₁.later.sameFile y).1, hd]
        exact hy
    have hlat₂ : Later s (s₁.schedule d) := hsch₁.later.trans (later_schedule s₁ d)
    obtain ⟨s₂, hrun₂, hsch₂, -⟩ := insertWaiting_spec (hcall CoreDriverEntry.after
      (s₁.schedule d) hlat₂ (fun e he => .inr he) (fun s₂ b hlat _ _ _ hname =>
        ⟨d, hname, hlat.log.mem (List.mem_cons_self ..)⟩)) (fun e e' h => h.2.2.1)
    refine ⟨s₂, ?_, ?_, ?_⟩
    · rw [coreInsertOnScheduledQueue, hrun₁]
      exact hrun₂
    · exact (hsch₁.weaken.step hturn (List.nodup_cons.mp hfra.nodup).1).trans hsch₂.weaken
    · rw [hsch₂.entry_frame List.mem_cons_self, schedule_entry_self]

end Edk2.Dispatcher.Scheduler
