import Mathlib.Order.WellFoundedSet
import Edk2.Dispatcher.Scheduler

/-!
# Runs of the dispatcher

In every run without two files of one name each driver is in one state, the scheduled queue holds
the drivers in the Scheduled state, and the searches end. A driver that waits before or after
another one is taken from the queue in this order; whether it is started then is up to the loader.
-/

namespace Edk2.Dispatcher.Scheduler

variable {s s' s'' : State} {d b x y : DriverId} {e : Entry} {log : List Entry}

/-- The driver that an entry is about. -/
def Entry.driver : Entry → DriverId
  | .read driver => driver
  | .queued driver => driver
  | .trusted driver => driver
  | .taken driver _ => driver

/-- Exactly one of the states of a driver. -/
def OneState (e : CoreDriverEntry) : Prop :=
  [e.dependent, e.unrequested, e.scheduled, e.untrusted, e.initialized,
    e.depexProtocolError].count true = 1

/-- The driver `b` was waiting to run before `x` when the dispatcher scheduled `x`. -/
def WaitedBefore (s : State) (log : List Entry) (b x : DriverId) : Prop :=
  b ∈ s.discovered ∧ b ≠ x ∧ (s.entry b).before = true ∧
    (s.entry x).fileName = (s.entry b).beforeAfterGuid ∧
    ∃ later earlier, log = later ++ .queued x :: earlier ∧ .read b ∈ earlier

/-- A driver that waited before `x` is taken from the queue before `x`. -/
def BeforeOrder (s : State) : Prop :=
  ∀ later x outcome earlier, s.log = later ++ .taken x outcome :: earlier →
    ∀ b, WaitedBefore s earlier b x → ∃ outcome', .taken b outcome' ∈ earlier

/-- A driver with `AFTER` is taken from the queue after the driver that it names. -/
def AfterOrder (s : State) : Prop :=
  ∀ later x outcome earlier, s.log = later ++ .taken x outcome :: earlier →
    (s.entry x).after = true → ∃ y outcome', (s.entry y).fileName = (s.entry x).beforeAfterGuid ∧
      .taken y outcome' ∈ earlier

/-- No driver is started twice. -/
def StartedOnce (log : List Entry) : Prop :=
  ∀ later d earlier, log = later ++ .taken d .started :: earlier → .taken d .started ∉ earlier

structure Dispatched (s : State) : Prop where
  one : ∀ d ∈ s.discovered, OneState (s.entry d)
  nodup : s.queue.Nodup
  queue : ∀ d, d ∈ s.queue ↔ d ∈ s.discovered ∧ (s.entry d).scheduled = true
  search : ∀ answers, ∃ depth result, search answers depth s = some result
  once : StartedOnce s.log
  before : BeforeOrder s
  after : AfterOrder s

/-- The driver has left the states before Scheduled. -/
def CoreDriverEntry.Past (e : CoreDriverEntry) : Prop :=
  e.scheduled = true ∨ e.untrusted = true ∨ e.initialized = true

structure DriverOk (e : CoreDriverEntry) (d : DriverId) (log : List Entry) : Prop where
  one : OneState e
  oneKind : e.before = true → e.after = false
  unread : e.depexProtocolError = true → e.before = false ∧ e.after = false ∧ .read d ∉ log
  flagged : e.before = true ∨ e.after = true → e.dependent = true ∨ .queued d ∈ log
  mentioned : ∀ entry ∈ log, entry.driver = d → entry = .read d ∨ e.Past
  queued : e.Past → .queued d ∈ log
  taken : e.untrusted = true ∨ e.initialized = true → ∃ outcome, .taken d outcome ∈ log
  started : .taken d .started ∈ log → e.initialized = true

/-- The driver `b` is taken from the queue before `x`, or has been. -/
def Ahead (s : State) (b x : DriverId) : Prop :=
  (∃ outcome, .taken b outcome ∈ s.log) ∨ ∃ front back, s.queue = front ++ b :: back ∧ x ∈ back

structure Orders (s : State) : Prop where
  ahead_before : ∀ b x, WaitedBefore s s.log b x → Ahead s b x
  ahead_after : ∀ x, .queued x ∈ s.log → (s.entry x).after = true →
    ∃ y, (s.entry y).fileName = (s.entry x).beforeAfterGuid ∧ Ahead s y x
  before : BeforeOrder s
  after : AfterOrder s

structure Inv (s : State) : Prop where
  distinct : DistinctNames s
  driver : ∀ d ∈ s.discovered, DriverOk (s.entry d) d s.log
  mentions : ∀ entry ∈ s.log, entry.driver ∈ s.discovered
  nodup : s.queue.Nodup
  queue : ∀ d, d ∈ s.queue ↔ d ∈ s.discovered ∧ (s.entry d).scheduled = true
  once : StartedOnce s.log
  orders : Orders s

lemma inv_initial (h : Initial s) : Inv s where
  distinct d hd := by simp [h.discovered] at hd
  driver d hd := by simp [h.discovered] at hd
  mentions entry he := by simp [h.log] at he
  nodup := by simp [h.queue]
  queue d := by simp [h.queue, h.discovered]
  once := by simp [StartedOnce, h.log]
  orders := by
    refine ⟨fun b x hb => ?_, by simp [h.log], by simp [BeforeOrder, h.log],
      by simp [AfterOrder, h.log]⟩
    obtain ⟨-, -, -, -, later, earlier, hlog, -⟩ := hb
    simp [h.log] at hlog

lemma DriverOk.other {entry : CoreDriverEntry} (h : DriverOk entry d log) (he : e.driver ≠ d) :
    DriverOk entry d (e :: log) where
  one := h.one
  oneKind := h.oneKind
  unread hunread := by
    obtain ⟨hbef, haft, hread⟩ := h.unread hunread
    refine ⟨hbef, haft, fun hmem => ?_⟩
    rcases List.mem_cons.mp hmem with rfl | hmem
    · exact he rfl
    · exact hread hmem
  flagged hflag := (h.flagged hflag).imp_right (List.mem_cons_of_mem _)
  mentioned entry hmem hdriver := by
    rcases List.mem_cons.mp hmem with rfl | hmem
    · exact absurd hdriver he
    · exact h.mentioned entry hmem hdriver
  queued hpast := List.mem_cons_of_mem _ (h.queued hpast)
  taken htaken := (h.taken htaken).imp fun _ => List.mem_cons_of_mem _
  started hmem := by
    rcases List.mem_cons.mp hmem with rfl | hmem
    · exact absurd rfl he
    · exact h.started hmem

lemma Ahead.mono (h : Ahead s b x) (hlog : s.log ⊆ s'.log) (hque : s.queue <+: s'.queue) :
    Ahead s' b x := by
  rcases h with ⟨outcome, hmem⟩ | ⟨front, back, hspl, hx⟩
  · exact .inl ⟨outcome, hlog hmem⟩
  · obtain ⟨rest, hrest⟩ := hque
    exact .inr ⟨front, back ++ rest, by rw [← hrest, hspl]; simp, List.mem_append_left _ hx⟩

lemma Inv.ahead_of_past (h : Inv s) (hb : b ∈ s.discovered) (hpast : (s.entry b).Past)
    (hlog : s.log ⊆ s'.log) (hque : s'.queue = s.queue ++ [x]) : Ahead s' b x := by
  rcases hpast with hsch | htak
  · obtain ⟨front, back, hspl⟩ := List.append_of_mem ((h.queue b).mpr ⟨hb, hsch⟩)
    exact .inr ⟨front, back ++ [x], by rw [hque, hspl]; simp, by simp⟩
  · obtain ⟨outcome, hmem⟩ := (h.driver b hb).taken htak
    exact .inl ⟨outcome, hlog hmem⟩

lemma count_dependent : ∀ a b c d e f : Bool, [a, b, c, d, e, f].count true = 1 → a = true →
    b = false ∧ c = false ∧ d = false ∧ e = false ∧ f = false := by decide

lemma count_unrequested : ∀ a b c d e f : Bool, [a, b, c, d, e, f].count true = 1 → b = true →
    a = false ∧ c = false ∧ d = false ∧ e = false ∧ f = false := by decide

lemma count_scheduled : ∀ a b c d e f : Bool, [a, b, c, d, e, f].count true = 1 → c = true →
    a = false ∧ b = false ∧ d = false ∧ e = false ∧ f = false := by decide

lemma count_untrusted : ∀ a b c d e f : Bool, [a, b, c, d, e, f].count true = 1 → d = true →
    a = false ∧ b = false ∧ c = false ∧ e = false ∧ f = false := by decide

lemma count_unread : ∀ a b c d e f : Bool, [a, b, c, d, e, f].count true = 1 → f = true →
    a = false ∧ b = false ∧ c = false ∧ d = false ∧ e = false := by decide

/-- The drivers are the same apart from their states. -/
def SameFiles (s s' : State) : Prop :=
  s'.discovered = s.discovered ∧ ∀ d, (s.entry d).SameFile (s'.entry d)

lemma waitedBefore_congr (h : SameFiles s s') :
    WaitedBefore s' log b x ↔ WaitedBefore s log b x := by
  unfold WaitedBefore
  rw [h.1, (h.2 b).2.1, (h.2 x).1, (h.2 b).2.2.2]

lemma distinctNames_congr (h : SameFiles s s') (hdis : DistinctNames s) : DistinctNames s' := by
  intro d hd b hb heq
  rw [h.1] at hd hb
  rw [(h.2 d).1, (h.2 b).1] at heq
  exact hdis d hd b hb heq

lemma split_cons {later earlier : List Entry} {entry : Entry}
    (h : e :: log = later ++ entry :: earlier) :
    (later = [] ∧ e = entry ∧ log = earlier) ∨ ∃ later', log = later' ++ entry :: earlier := by
  cases later with
  | nil => exact .inl (by simpa using h)
  | cons e' later => exact .inr ⟨later, (List.cons.inj h).2⟩

lemma waitedBefore_of_cons (h : WaitedBefore s (e :: log) b x) :
    WaitedBefore s log b x ∨ e = .queued x ∧ .read b ∈ log := by
  obtain ⟨hb, hne, hbef, hname, later, earlier, hlog, hread⟩ := h
  rcases split_cons hlog with ⟨-, rfl, rfl⟩ | ⟨later', hlog'⟩
  · exact .inr ⟨rfl, hread⟩
  · exact .inl ⟨hb, hne, hbef, hname, later', earlier, hlog', hread⟩

lemma BeforeOrder.cons (h : BeforeOrder s) (hfil : SameFiles s s') (hlog : s'.log = e :: s.log)
    (he : ∀ x outcome, e = .taken x outcome → ∀ b, WaitedBefore s s.log b x →
      ∃ outcome', .taken b outcome' ∈ s.log) : BeforeOrder s' := by
  intro later x outcome earlier hspl b hb
  rw [waitedBefore_congr hfil] at hb
  rw [hlog] at hspl
  rcases split_cons hspl with ⟨-, rfl, rfl⟩ | ⟨later', hspl'⟩
  · exact he x outcome rfl b hb
  · exact h later' x outcome earlier hspl' b hb

lemma AfterOrder.cons (h : AfterOrder s) (hfil : SameFiles s s') (hlog : s'.log = e :: s.log)
    (he : ∀ x outcome, e = .taken x outcome → (s.entry x).after = true →
      ∃ y outcome', (s.entry y).fileName = (s.entry x).beforeAfterGuid ∧
        .taken y outcome' ∈ s.log) : AfterOrder s' := by
  intro later x outcome earlier hspl haft
  rw [(hfil.2 x).2.2.1] at haft
  rw [hlog] at hspl
  obtain ⟨y, outcome', hname, hmem⟩ : ∃ y outcome',
      (s.entry y).fileName = (s.entry x).beforeAfterGuid ∧ .taken y outcome' ∈ earlier := by
    rcases split_cons hspl with ⟨-, rfl, rfl⟩ | ⟨later', hspl'⟩
    · exact he x outcome rfl haft
    · exact h later' x outcome earlier hspl' haft
  exact ⟨y, outcome', by rw [(hfil.2 y).1, (hfil.2 x).2.2.2]; exact hname, hmem⟩

lemma StartedOnce.cons (h : StartedOnce log)
    (he : ∀ d, e = .taken d .started → .taken d .started ∉ log) : StartedOnce (e :: log) := by
  intro later d earlier hspl
  rcases split_cons hspl with ⟨-, rfl, rfl⟩ | ⟨later', hspl'⟩
  · exact he d rfl
  · exact h later' d earlier hspl'

lemma Orders.append (h : Orders s) (hfil : SameFiles s s') (hlog : s'.log = e :: s.log)
    (hque : s'.queue = s.queue ++ [d]) (he : e = .queued d ∨ e = .trusted d)
    (hbef : e = .queued d → ∀ b, b ∈ s.discovered → b ≠ d → (s.entry b).before = true →
      (s.entry d).fileName = (s.entry b).beforeAfterGuid → .read b ∈ s.log → Ahead s' b d)
    (haft : e = .queued d → (s.entry d).after = true →
      ∃ y, (s.entry y).fileName = (s.entry d).beforeAfterGuid ∧ Ahead s' y d) : Orders s' := by
  have hsub : s.log ⊆ s'.log := by
    rw [hlog]
    exact List.subset_cons_self e s.log
  have hpre : s.queue <+: s'.queue := hque ▸ List.prefix_append _ _
  have hnot : ∀ x outcome, e ≠ .taken x outcome := by rcases he with rfl | rfl <;> exact nofun
  refine ⟨fun b x hb => ?_, fun x hx ha => ?_,
    h.before.cons hfil hlog (fun x outcome heq => absurd heq (hnot x outcome)),
    h.after.cons hfil hlog (fun x outcome heq => absurd heq (hnot x outcome))⟩
  · rw [waitedBefore_congr hfil, hlog] at hb
    rcases waitedBefore_of_cons hb with hb' | ⟨rfl, hread⟩
    · exact (h.ahead_before b x hb').mono hsub hpre
    · obtain rfl : x = d := by simpa using he
      exact hbef rfl b hb.1 hb.2.1 hb.2.2.1 hb.2.2.2.1 hread
  · rw [(hfil.2 x).2.2.1] at ha
    obtain ⟨y, hname, hahe⟩ : ∃ y, (s.entry y).fileName = (s.entry x).beforeAfterGuid ∧
        Ahead s' y x := by
      rw [hlog] at hx
      rcases List.mem_cons.mp hx with rfl | hx
      · obtain rfl : x = d := by simpa using he
        exact haft rfl ha
      · obtain ⟨y, hname, hahe⟩ := h.ahead_after x hx ha
        exact ⟨y, hname, hahe.mono hsub hpre⟩
    exact ⟨y, by rw [(hfil.2 y).1, (hfil.2 x).2.2.2]; exact hname, hahe⟩

lemma Inv.taken_of_ahead_head {rest : List DriverId} (h : Inv s) (hque : s.queue = d :: rest)
    (hahe : Ahead s b d) : ∃ outcome, .taken b outcome ∈ s.log := by
  rcases hahe with htak | ⟨front, back, hspl, hd⟩
  · exact htak
  · have hnod := h.nodup
    rw [hque] at hnod hspl
    cases front with
    | nil =>
      grind
    | cons d' front =>
      grind

lemma Inv.orders_take {rest : List DriverId} {outcome : Outcome} (h : Inv s)
    (hque : s.queue = d :: rest) (hfil : SameFiles s s')
    (hlog : s'.log = .taken d outcome :: s.log) (hque' : s'.queue = rest) : Orders s' := by
  have hahe : ∀ {b x}, Ahead s b x → Ahead s' b x := by
    intro b x hahe
    rcases hahe with ⟨outcome', hmem⟩ | ⟨front, back, hspl, hx⟩
    · exact .inl ⟨outcome', by rw [hlog]; exact List.mem_cons_of_mem _ hmem⟩
    · rw [hque] at hspl
      cases front with
      | nil =>
        obtain ⟨rfl, rfl⟩ := List.cons.inj hspl
        exact .inl ⟨outcome, by rw [hlog]; exact List.mem_cons_self⟩
      | cons d' front =>
        obtain ⟨rfl, rfl⟩ := List.cons.inj hspl
        exact .inr ⟨front, back, hque', hx⟩
  have hd : d ∈ s.discovered ∧ (s.entry d).scheduled = true :=
    (h.queue d).mp (hque ▸ List.mem_cons_self)
  refine ⟨fun b x hb => ?_, fun x hx ha => ?_, h.orders.before.cons hfil hlog ?_,
    h.orders.after.cons hfil hlog ?_⟩
  · rw [waitedBefore_congr hfil, hlog] at hb
    rcases waitedBefore_of_cons hb with hb' | ⟨heq, -⟩
    · exact hahe (h.orders.ahead_before b x hb')
    · cases heq
  · rw [(hfil.2 x).2.2.1] at ha
    have hx' : .queued x ∈ s.log := by
      grind
    obtain ⟨y, hname, hy⟩ := h.orders.ahead_after x hx' ha
    exact ⟨y, by rw [(hfil.2 y).1, (hfil.2 x).2.2.2]; exact hname, hahe hy⟩
  · intro x outcome' heq b hb
    obtain ⟨rfl, rfl⟩ := Entry.taken.inj heq
    exact h.taken_of_ahead_head hque (h.orders.ahead_before b d hb)
  · intro x outcome' heq ha
    obtain ⟨rfl, rfl⟩ := Entry.taken.inj heq
    obtain ⟨y, hname, hy⟩ := h.orders.ahead_after d ((h.driver d hd.1).queued (.inl hd.2)) ha
    obtain ⟨outcome'', hmem⟩ := h.taken_of_ahead_head hque hy
    exact ⟨y, outcome'', hname, hmem⟩

/-! ### One step -/

lemma Inv.of_driver (h : Inv s) (hd : d ∈ s.discovered) (hfil : SameFiles s s')
    (hoth : ∀ b ≠ d, s'.entry b = s.entry b) (hlog : s'.log = e :: s.log) (he : e.driver = d)
    (hdri : DriverOk (s'.entry d) d s'.log) (hnod : s'.queue.Nodup)
    (hque : ∀ b, b ∈ s'.queue ↔ b ∈ s.discovered ∧ (s'.entry b).scheduled = true)
    (honce : e = .taken d .started → .taken d .started ∉ s.log) (hord : Orders s') :
    Inv s' where
  distinct := distinctNames_congr hfil h.distinct
  driver b hb := by
    by_cases hbd : b = d
    · subst hbd
      exact hdri
    · rw [hfil.1] at hb
      rw [hoth b hbd, hlog]
      exact (h.driver b hb).other (by rw [he]; exact Ne.symm hbd)
  mentions entry hmem := by
    rw [hlog] at hmem
    rw [hfil.1]
    rcases List.mem_cons.mp hmem with rfl | hmem
    · exact he ▸ hd
    · exact h.mentions entry hmem
  nodup := hnod
  queue b := by rw [hque b, hfil.1]
  once := by
    rw [hlog]
    apply h.once.cons
    intro d' heq
    obtain rfl : d = d' := by rw [← he, heq]; rfl
    exact honce heq
  orders := hord

lemma sameFiles_of_driver (hoth : ∀ b ≠ d, s'.entry b = s.entry b)
    (hdis : s'.discovered = s.discovered) (hself : (s.entry d).SameFile (s'.entry d)) :
    SameFiles s s' := by
  refine ⟨hdis, fun b => ?_⟩
  by_cases h : b = d
  · exact h ▸ hself
  · rw [hoth b h]
    exact ⟨rfl, rfl, rfl, rfl⟩

lemma Inv.queue_append (h : Inv s) (s' : State) (hd : d ∈ s.discovered) (hnot : (s.entry d).scheduled = false)
    (hoth : ∀ b ≠ d, s'.entry b = s.entry b) (hsch : (s'.entry d).scheduled = true)
    (hque : s'.queue = s.queue ++ [d]) :
    s'.queue.Nodup ∧ ∀ b, b ∈ s'.queue ↔ b ∈ s.discovered ∧ (s'.entry b).scheduled = true := by
  have hmem : d ∉ s.queue := by
    rw [h.queue]
    simp [hnot]
  rw [hque]
  refine ⟨?_, fun b => ?_⟩
  · exact h.nodup.append (List.nodup_singleton d) (by simpa using hmem)
  · rw [List.mem_append, List.mem_singleton, h.queue]
    grind

lemma inv_schedule (h : Inv s) (hturn : InTurn s d) : Inv (s.schedule d) := by
  have hok := h.driver d hturn.discovered
  obtain ⟨hunr, hsch, huntr, hinit, hread⟩ := count_dependent _ _ _ _ _ _ hok.one hturn.dependent
  have hfil : SameFiles s (s.schedule d) := by
    obtain ⟨hdisc, hsame, -, -⟩ := later_schedule s d
    exact ⟨hdisc, hsame⟩
  have hoth : ∀ b ≠ d, (s.schedule d).entry b = s.entry b := fun b hb => schedule_entry_of_ne hb
  have hsub : s.log ⊆ (s.schedule d).log := List.subset_cons_self _ _
  obtain ⟨hnod, hqueu⟩ := h.queue_append (s.schedule d) hturn.discovered hsch hoth (by simp) rfl
  refine h.of_driver hturn.discovered hfil hoth rfl rfl ?_ hnod hqueu nofun
    (h.orders.append hfil rfl rfl (.inl rfl) (fun _ b hb hne hbef hname _ => ?_) (fun _ ha => ?_))
  · rw [schedule_entry_self]
    refine ⟨by simp [OneState, hunr, huntr, hinit, hread], hok.oneKind, by simp [hread],
      fun _ => .inr List.mem_cons_self, fun _ _ _ => .inr (.inl rfl),
      fun _ => List.mem_cons_self, by simp [huntr, hinit], fun hmem => ?_⟩
    exact hok.started ((List.mem_cons.mp hmem).resolve_left nofun)
  · have hdep := hturn.before b hb hne hbef hname
    have hque := ((h.driver b hb).flagged (.inl hbef)).resolve_left (by simp [hdep])
    exact h.ahead_of_past hb (((h.driver b hb).mentioned _ hque rfl).resolve_left nofun) hsub rfl
  · obtain ⟨y, hname, hque⟩ := hturn.after ha
    have hy := h.mentions _ hque
    exact ⟨y, hname,
      h.ahead_of_past hy (((h.driver y hy).mentioned _ hque rfl).resolve_left nofun) hsub rfl⟩

lemma inv_schedules {frames : List DriverId} (h : Inv s) (hsch : Schedules frames s s') :
    Inv s' := by
  induction hsch with
  | refl => exact h
  | step _ hturn _ ih => exact inv_schedule ih hturn

lemma inv_trusted (h : Inv s) (hd : d ∈ s.discovered) (hunt : (s.entry d).untrusted = true)
    (hs' : s' = State.record { s.update d ({ · with untrusted := false, scheduled := true }) with
      queue := s.queue ++ [d] } (.trusted d)) : Inv s' := by
  have hok := h.driver d hd
  obtain ⟨hdep, hunr, hsch, hinit, hread⟩ := count_untrusted _ _ _ _ _ _ hok.one hunt
  have hoth : ∀ b ≠ d, s'.entry b = s.entry b := by
    intro b hb
    simp [hs', State.record, State.update, hb]
  have hself : s'.entry d = { s.entry d with untrusted := false, scheduled := true } := by
    simp [hs', State.record, State.update]
  have hfil : SameFiles s s' :=
    sameFiles_of_driver hoth (by rw [hs']; rfl) (by rw [hself]; exact ⟨rfl, rfl, rfl, rfl⟩)
  have hlog : s'.log = .trusted d :: s.log := by rw [hs']; rfl
  have hq : s'.queue = s.queue ++ [d] := by rw [hs']; rfl
  obtain ⟨hnod, hqueu⟩ := h.queue_append s' hd hsch hoth (by rw [hself]) hq
  refine h.of_driver hd hfil hoth hlog rfl ?_ hnod hqueu (by intro h; cases h)
    (h.orders.append hfil hlog hq (.inr rfl) (by intro h; cases h) (by intro h; cases h))
  have hque := List.mem_cons_of_mem (.trusted d) (hok.queued (.inr (.inl hunt)))
  rw [hself, hlog]
  refine ⟨by simp [OneState, hdep, hunr, hinit, hread], hok.oneKind, by simp [hread],
    fun _ => .inr hque, fun _ _ _ => .inr (.inl rfl), fun _ => hque, by simp [hinit],
    fun hmem => ?_⟩
  exact hok.started (List.mem_of_ne_of_mem (by simp) hmem)

lemma inv_coreTrust (h : Inv s) (firmwareVolumeHandle : Handle) (driverName : Guid) :
    Inv (coreTrust firmwareVolumeHandle driverName s).2 := by
  unfold coreTrust
  split
  · next d hfind =>
    have hd := List.mem_of_find?_eq_some hfind
    have hmat := List.find?_some hfind
    simp only [Bool.and_eq_true] at hmat
    exact inv_trusted h hd hmat.1.2 rfl
  · exact h

lemma inv_take {rest : List DriverId} {outcome : Outcome} {f : CoreDriverEntry → CoreDriverEntry}
    (h : Inv s) (hque : s.queue = d :: rest)
    (hf : ∃ imageHandle, f (s.entry d) = { s.entry d with imageHandle := imageHandle, initialized := true } ∨
      f (s.entry d) = { s.entry d with imageHandle := imageHandle, untrusted := true } ∧ outcome ≠ .started) :
    Inv (s.take d outcome f) := by
  obtain ⟨hd, hsch⟩ := (h.queue d).mp (hque ▸ List.mem_cons_self)
  have hok := h.driver d hd
  obtain ⟨hdep, hunr, huntr, hinit, hread⟩ := count_scheduled _ _ _ _ _ _ hok.one hsch
  have hoth : ∀ b ≠ d, (s.take d outcome f).entry b = s.entry b := by
    intro b hb
    simp [State.take, State.record, State.update, hb]
  have hself : (s.take d outcome f).entry d = { f (s.entry d) with scheduled := false } := by
    simp [State.take, State.record, State.update]
  have hfil : SameFiles s (s.take d outcome f) := by
    apply sameFiles_of_driver hoth rfl
    rw [hself]
    obtain ⟨imageHandle, hf | ⟨hf, -⟩⟩ := hf <;> rw [hf] <;> exact ⟨rfl, rfl, rfl, rfl⟩
  have hlog : (s.take d outcome f).log = .taken d outcome :: s.log := rfl
  have hrest : (s.take d outcome f).queue = rest := by
    simp [State.take, State.record, State.update, hque]
  have hnod := h.nodup
  rw [hque, List.nodup_cons] at hnod
  have hnot : .taken d .started ∉ s.log := fun hmem => by
    simpa [hinit] using hok.started hmem
  refine h.of_driver hd hfil hoth hlog rfl ?_ (hrest ▸ hnod.2) (fun b => ?_) (fun _ => hnot)
    (h.orders_take hque hfil hlog hrest)
  · have hqueu := List.mem_cons_of_mem (.taken d outcome) (hok.queued (.inl hsch))
    rw [hself, hlog]
    obtain ⟨imageHandle, hf | ⟨hf, hne⟩⟩ := hf
    · rw [hf]
      exact ⟨by simp [OneState, hdep, hunr, huntr, hread], hok.oneKind, by simp [hread],
        fun _ => .inr hqueu, fun _ _ _ => .inr (.inr (.inr rfl)), fun _ => hqueu,
        fun _ => ⟨outcome, List.mem_cons_self⟩, fun _ => rfl⟩
    · rw [hf]
      refine ⟨by simp [OneState, hdep, hunr, hinit, hread], hok.oneKind, by simp [hread],
        fun _ => .inr hqueu, fun _ _ _ => .inr (.inr (.inl rfl)), fun _ => hqueu,
        fun _ => ⟨outcome, List.mem_cons_self⟩, fun hmem => ?_⟩
      grind
  · rw [hrest]
    by_cases hb : b = d
    · subst hb
      simp [hself, hnod.1]
    · have hiff := h.queue b
      simp [hque, List.mem_cons, hoth b hb, ← hiff, hb]

lemma inv_drainHead {rest : List DriverId} (h : Inv s) (hque : s.queue = d :: rest)
    (status : EfiStatus) (imageHandle : Bool) : Inv (drainHead status imageHandle d s) := by
  grind [drainHead, inv_take]

lemma Orders.congr (h : Orders s) (hfil : SameFiles s s') (hlog : s'.log = s.log)
    (hque : s'.queue = s.queue) : Orders s' := by
  have hahe : ∀ {b x}, Ahead s b x → Ahead s' b x :=
    fun hahe => hahe.mono (hlog ▸ List.Subset.refl _) (hque ▸ List.prefix_refl _)
  refine ⟨fun b x hb => ?_, fun x hx ha => ?_, fun later x outcome earlier hspl b hb => ?_,
    fun later x outcome earlier hspl ha => ?_⟩
  · rw [waitedBefore_congr hfil, hlog] at hb
    exact hahe (h.ahead_before b x hb)
  · rw [hlog] at hx
    rw [(hfil.2 x).2.2.1] at ha
    obtain ⟨y, hname, hy⟩ := h.ahead_after x hx ha
    exact ⟨y, by rw [(hfil.2 y).1, (hfil.2 x).2.2.2]; exact hname, hahe hy⟩
  · rw [waitedBefore_congr hfil] at hb
    exact h.before later x outcome earlier (hlog ▸ hspl) b hb
  · rw [(hfil.2 x).2.2.1] at ha
    obtain ⟨y, outcome', hname, hmem⟩ := h.after later x outcome earlier (hlog ▸ hspl) ha
    exact ⟨y, outcome', by rw [(hfil.2 y).1, (hfil.2 x).2.2.2]; exact hname, hmem⟩

lemma inv_requested (h : Inv s) (hd : d ∈ s.discovered)
    (hunr : (s.entry d).unrequested = true)
    (hs' : s' = s.update d ({ · with unrequested := false, dependent := true })) : Inv s' := by
  have hok := h.driver d hd
  obtain ⟨hdep, hsch, huntr, hinit, hread⟩ := count_unrequested _ _ _ _ _ _ hok.one hunr
  have hoth : ∀ b ≠ d, s'.entry b = s.entry b := by
    intro b hb
    rw [hs', update_entry_of_ne hb]
  have hself : s'.entry d = { s.entry d with unrequested := false, dependent := true } := by
    rw [hs', update_entry_self]
  have hfil : SameFiles s s' :=
    sameFiles_of_driver hoth (by rw [hs']; rfl) (by rw [hself]; exact ⟨rfl, rfl, rfl, rfl⟩)
  have hlog : s'.log = s.log := by rw [hs']; rfl
  have hque : s'.queue = s.queue := by rw [hs']; rfl
  refine ⟨distinctNames_congr hfil h.distinct, fun b hb => ?_, ?_, hque ▸ h.nodup,
    fun b => ?_, hlog ▸ h.once, h.orders.congr hfil hlog hque⟩
  · rw [hlog]
    by_cases hbd : b = d
    · subst hbd
      rw [hself]
      exact ⟨by simp [OneState, hsch, huntr, hinit, hread], hok.oneKind, by simp [hread],
        fun _ => .inl rfl, hok.mentioned, hok.queued, hok.taken, hok.started⟩
    · rw [hoth b hbd]
      exact h.driver b (hfil.1 ▸ hb)
  · rw [hlog, hfil.1]
    exact h.mentions
  · rw [hque, hfil.1, h.queue b]
    grind

lemma inv_coreSchedule (h : Inv s) (firmwareVolumeHandle : Handle) (driverName : Guid) :
    Inv (coreSchedule firmwareVolumeHandle driverName s).2 := by
  unfold coreSchedule
  split
  · next d hfind =>
    have hd := List.mem_of_find?_eq_some hfind
    have hmat := List.find?_some hfind
    simp only [Bool.and_eq_true] at hmat
    exact inv_requested h hd hmat.1.2 rfl
  · exact h

/-! ### Dependency sections -/

/-- Nothing has happened to the driver yet. -/
def Untouched (e : CoreDriverEntry) : Prop :=
  e.dependent = false ∧ e.unrequested = false ∧ e.scheduled = false ∧ e.untrusted = false ∧
    e.initialized = false ∧ e.before = false ∧ e.after = false

/-- What a driver is after its section was read. -/
structure AfterRead (section? : ReadSection) (e₀ e : CoreDriverEntry) : Prop where
  fileName : e.fileName = e₀.fileName
  one : OneState e
  oneKind : e.before = true → e.after = false
  notPast : ¬e.Past
  unread : e.depexProtocolError = true ↔ section? = .protocolError
  unflagged : section? = .protocolError → e.before = false ∧ e.after = false
  flagged : e.before = true ∨ e.after = true → e.dependent = true

lemma afterRead_depex {e₀ : CoreDriverEntry} (h : Untouched e₀) (opcode : UInt8) (guid : Guid) :
    AfterRead (.depex opcode guid) e₀
      { corePreProcessDepex opcode guid e₀ with depexProtocolError := false } := by
  obtain ⟨hdep, hunr, hsch, huntr, hinit, hbef, haft⟩ := h
  have hne : ¬efiDepSor = efiDepBefore ∧ ¬efiDepSor = efiDepAfter := by decide
  have hne' : ¬efiDepBefore = efiDepSor ∧ ¬efiDepAfter = efiDepSor ∧
      ¬efiDepAfter = efiDepBefore := by decide
  unfold corePreProcessDepex
  by_cases hsor : opcode = efiDepSor
  · subst hsor
    constructor <;> simp [OneState, CoreDriverEntry.Past, *]
  by_cases hb : opcode = efiDepBefore
  · subst hb
    constructor <;> simp [OneState, CoreDriverEntry.Past, *]
  by_cases ha : opcode = efiDepAfter
  · subst ha
    constructor <;> simp [OneState, CoreDriverEntry.Past, *]
  · constructor <;> simp [OneState, CoreDriverEntry.Past, *]

lemma afterRead {e₀ : CoreDriverEntry} (h : Untouched e₀) (section? : ReadSection) :
    AfterRead section? e₀ (coreGetDepexSectionAndPreProcess section? e₀) := by
  cases section? with
  | depex opcode guid => exact afterRead_depex h opcode guid
  | protocolError =>
    obtain ⟨hdep, hunr, hsch, huntr, hinit, hbef, haft⟩ := h
    constructor <;>
      simp [coreGetDepexSectionAndPreProcess, OneState, CoreDriverEntry.Past, *]
  | error =>
    obtain ⟨hdep, hunr, hsch, huntr, hinit, hbef, haft⟩ := h
    constructor <;>
      simp [coreGetDepexSectionAndPreProcess, OneState, CoreDriverEntry.Past, *]

lemma AfterRead.driverOk {section? : ReadSection} {e₀ e₁ : CoreDriverEntry}
    (h : AfterRead section? e₀ e₁) (hlog : ∀ e ∈ log, e.driver ≠ d) :
    DriverOk e₁ d (if section? = .protocolError then log else .read d :: log) := by
  have hmem : ∀ e ∈ (if section? = .protocolError then log else .read d :: log), e.driver = d →
      e = .read d := by
    intro e he hd
    split_ifs at he
    · exact absurd hd (hlog e he)
    · exact (List.mem_cons.mp he).resolve_right fun hmem => hlog e hmem hd
  refine ⟨h.one, h.oneKind, fun hunr => ?_, fun hflag => .inl (h.flagged hflag),
    fun e he hd => .inl (hmem e he hd), fun hpast => absurd hpast h.notPast,
    fun htak => absurd (.inr htak) h.notPast,
    fun he => absurd (hmem _ he rfl) nofun⟩
  have hpro := h.unread.mp hunr
  obtain ⟨hbef, haft⟩ := h.unflagged hpro
  rw [if_pos hpro]
  exact ⟨hbef, haft, fun he => hlog _ he rfl⟩

lemma waitedBefore_fresh (hlog : ∀ e ∈ log, e.driver ≠ d)
    (hoth : ∀ b ≠ d, s'.entry b = s.entry b)
    (hdis : ∀ b, b ∈ s'.discovered ↔ b ∈ s.discovered ∨ b = d)
    (h : WaitedBefore s' log b x) : WaitedBefore s log b x := by
  obtain ⟨hb, hne, hbef, hname, later, earlier, rfl, hread⟩ := h
  have hbd : b ≠ d := hlog (.read b) (by simp [hread])
  have hxd : x ≠ d := hlog (.queued x) (by simp)
  rw [hoth b hbd] at hbef hname
  rw [hoth x hxd] at hname
  exact ⟨((hdis b).mp hb).resolve_right hbd, hne, hbef, hname, later, earlier, rfl, hread⟩

lemma Inv.of_read {section? : ReadSection} (h : Inv s) (e₀ : CoreDriverEntry)
    (hfre : ∀ e ∈ s.log, e.driver ≠ d) (hnot : d ∉ s.queue)
    (hoth : ∀ b ≠ d, s'.entry b = s.entry b)
    (hdis : ∀ b, b ∈ s'.discovered ↔ b ∈ s.discovered ∨ b = d)
    (hlog : s'.log = if section? = .protocolError then s.log else .read d :: s.log)
    (hque : s'.queue = s.queue) (hread : AfterRead section? e₀ (s'.entry d))
    (hdist : DistinctNames s') : Inv s' := by
  have hcas : s'.log = s.log ∨ s'.log = .read d :: s.log := by
    rw [hlog]
    split_ifs
    · exact .inl rfl
    · exact .inr rfl
  have hsub : s.log ⊆ s'.log := by
    grind
  have hspl : ∀ {later x outcome earlier}, s'.log = later ++ .taken x outcome :: earlier →
      ∃ later', s.log = later' ++ .taken x outcome :: earlier := by
    intro later x outcome earlier heq
    rcases hcas with hcas | hcas <;> rw [hcas] at heq
    · exact ⟨later, heq⟩
    · exact (split_cons heq).resolve_left nofun
  have hahe : ∀ {b x}, Ahead s b x → Ahead s' b x :=
    fun hahe => hahe.mono hsub (hque ▸ List.prefix_refl _)
  have hne : ∀ {b x}, Ahead s b x → b ≠ d := by
    rintro b x (⟨outcome, hmem⟩ | ⟨front, back, hspl, -⟩) rfl
    · exact hfre _ hmem rfl
    · exact hnot (by rw [hspl]; simp)
  refine ⟨hdist, fun b hb => ?_, fun e he => ?_, hque ▸ h.nodup, fun b => ?_, ?_,
    ⟨fun b x hb => ?_, fun x hx ha => ?_, fun later x outcome earlier heq b hb => ?_,
      fun later x outcome earlier heq ha => ?_⟩⟩
  · by_cases hbd : b = d
    · subst hbd
      rw [hlog]
      exact hread.driverOk hfre
    · have hok := h.driver b (((hdis b).mp hb).resolve_right hbd)
      rw [hoth b hbd]
      rcases hcas with hcas | hcas <;> rw [hcas]
      · exact hok
      · exact hok.other (Ne.symm hbd)
  · rw [hdis]
    rcases hcas with hcas | hcas <;> rw [hcas] at he
    · exact .inl (h.mentions e he)
    · rcases List.mem_cons.mp he with rfl | he
      · exact .inr rfl
      · exact .inl (h.mentions e he)
  · rw [hque, hdis]
    by_cases hbd : b = d
    · subst hbd
      have hsch : (s'.entry b).scheduled ≠ true := fun hsch => hread.notPast (.inl hsch)
      simp [hnot, hsch]
    · rw [hoth b hbd, h.queue b]
      simp [hbd]
  · rcases hcas with hcas | hcas <;> rw [hcas]
    · exact h.once
    · exact h.once.cons nofun
  · have hb' : WaitedBefore s' s.log b x := by
      grind [waitedBefore_of_cons]
    exact hahe (h.orders.ahead_before b x (waitedBefore_fresh hfre hoth hdis hb'))
  · have hx' : .queued x ∈ s.log := by
      grind
    have hxd : x ≠ d := hfre _ hx'
    rw [hoth x hxd] at ha ⊢
    obtain ⟨y, hname, hy⟩ := h.orders.ahead_after x hx' ha
    grind
  · obtain ⟨later', heq'⟩ := hspl heq
    have hear : ∀ e ∈ earlier, e.driver ≠ d := fun e he => hfre e (by simp [heq', he])
    exact h.orders.before later' x outcome earlier heq' b (waitedBefore_fresh hear hoth hdis hb)
  · obtain ⟨later', heq'⟩ := hspl heq
    have hxd : x ≠ d := hfre (.taken x outcome) (by simp [heq'])
    rw [hoth x hxd] at ha ⊢
    obtain ⟨y, outcome', hname, hmem⟩ := h.orders.after later' x outcome earlier heq' ha
    have hyd : y ≠ d := hfre (.taken y outcome') (by simp [heq', hmem])
    grind

lemma readDepex_log (s : State) (d : DriverId) (section? : ReadSection) :
    (s.readDepex d section?).log =
      if section? = .protocolError then s.log else .read d :: s.log := by
  unfold State.readDepex
  dsimp only
  split_ifs <;> rfl

lemma readDepex_entry (s : State) (d : DriverId) (section? : ReadSection) :
    (s.readDepex d section?).entry =
      Function.update s.entry d (coreGetDepexSectionAndPreProcess section? (s.entry d)) := by
  unfold State.readDepex
  dsimp only
  split_ifs <;> rfl

lemma readDepex_same (s : State) (d : DriverId) (section? : ReadSection) :
    (s.readDepex d section?).discovered = s.discovered ∧
      (s.readDepex d section?).queue = s.queue := by
  unfold State.readDepex
  dsimp only
  split_ifs <;> exact ⟨rfl, rfl⟩

lemma inv_readDepex (h : Inv s) (hd : d ∈ s.discovered)
    (hunr : (s.entry d).depexProtocolError = true) (section? : ReadSection) :
    Inv (s.readDepex d section?) := by
  have hok := h.driver d hd
  obtain ⟨hdep, hunre, hsch, huntr, hinit⟩ := count_unread _ _ _ _ _ _ hok.one hunr
  obtain ⟨hbef, hafte, hread⟩ := hok.unread hunr
  have hself : (s.readDepex d section?).entry d =
      coreGetDepexSectionAndPreProcess section? (s.entry d) := by simp [readDepex_entry]
  have hoth : ∀ b ≠ d, (s.readDepex d section?).entry b = s.entry b := by
    intro b hb
    simp [readDepex_entry, hb]
  obtain ⟨hdisc, hque⟩ := readDepex_same s d section?
  have haft := afterRead ⟨hdep, hunre, hsch, huntr, hinit, hbef, hafte⟩ section?
  refine h.of_read (s.entry d) (fun e he heq => ?_) ?_ hoth (fun b => ?_) (readDepex_log s d section?)
    hque (hself ▸ haft) ?_
  · rcases hok.mentioned e he heq with rfl | hpast
    · exact hread he
    grind [CoreDriverEntry.Past]
  · rw [h.queue]
    simp [hsch]
  · rw [hdisc, iff_self_or]
    rintro rfl
    exact hd
  · have hname : ∀ b, ((s.readDepex d section?).entry b).fileName = (s.entry b).fileName := by
      intro b
      by_cases hb : b = d
      · rw [hb, hself, haft.fileName]
      · rw [hoth b hb]
    intro b hb x hx heq
    rw [hname, hname] at heq
    rw [hdisc] at hb hx
    exact h.distinct b hb x hx heq

lemma inv_coreAddToDriverList (h : Inv s) (hd : d ∉ s.discovered) (fileName : Guid)
    (fvHandle : Handle) (isFvImage : Bool) (section? : ReadSection)
    (hdis : DistinctNames (coreAddToDriverList d fileName fvHandle isFvImage section? s)) :
    Inv (coreAddToDriverList d fileName fvHandle isFvImage section? s) := by
  obtain ⟨hdisc, hque⟩ :=
    readDepex_same (s.update d (fun _ => .blank fileName fvHandle isFvImage)) d section?
  have hent :=
    readDepex_entry (s.update d (fun _ => .blank fileName fvHandle isFvImage)) d section?
  refine h.of_read (.blank fileName fvHandle isFvImage) (fun e he heq => ?_) (fun hq => ?_)
    (fun b hb => ?_) (fun b => ?_) (readDepex_log _ d section?) hque ?_ hdis
  · exact hd (heq ▸ h.mentions e he)
  · exact hd ((h.queue d).mp hq).1
  · simp [hent, Function.update_of_ne hb, update_entry_of_ne hb, coreAddToDriverList]
  · unfold coreAddToDriverList
    dsimp only
    rw [hdisc, List.mem_append, List.mem_singleton]
    rfl
  · unfold coreAddToDriverList
    dsimp only
    rw [hent, Function.update_self, update_entry_self]
    exact afterRead ⟨rfl, rfl, rfl, rfl, rfl, rfl, rfl⟩ section?

/-! ### Searches -/

lemma foldlM_mono {α β : Type} {f g : β → α → Option β} (h : ∀ b a b', f b a = some b' →
    g b a = some b') (list : List α) (b : β) {b' : β} (hf : list.foldlM f b = some b') :
    list.foldlM g b = some b' := by
  induction list generalizing b with
  | nil => exact hf
  | cons a list ih =>
    rw [List.foldlM_cons] at hf ⊢
    cases hstep : f b a with
    | none => simp [hstep] at hf
    | some b₁ =>
      rw [hstep] at hf
      rw [h b a b₁ hstep]
      exact ih b₁ hf

lemma insertWaiting_mono {f g : State → DriverId → Option State} {kind : CoreDriverEntry → Bool}
    (h : ∀ s d s', f s d = some s' → g s d = some s')
    (hf : insertWaiting f kind d s = some s') : insertWaiting g kind d s = some s' := by
  apply foldlM_mono _ s.discovered s hf
  grind

lemma coreInsertOnScheduledQueue_mono {depth depth' : ℕ} (hle : depth ≤ depth')
    (h : coreInsertOnScheduledQueue depth s d = some s') :
    coreInsertOnScheduledQueue depth' s d = some s' := by
  induction depth generalizing depth' s d s' with
  | zero => simp [coreInsertOnScheduledQueue] at h
  | succ depth ih =>
    obtain ⟨depth', rfl⟩ : ∃ n, depth' = n + 1 := ⟨depth' - 1, by omega⟩
    have hcall : ∀ s d s', coreInsertOnScheduledQueue depth s d = some s' →
        coreInsertOnScheduledQueue depth' s d = some s' := fun s d s' => ih (by omega)
    rw [coreInsertOnScheduledQueue] at h ⊢
    obtain ⟨s₁, hbef, haft⟩ := Option.bind_eq_some_iff.mp h
    exact Option.bind_eq_some_iff.mpr
      ⟨s₁, insertWaiting_mono hcall hbef, insertWaiting_mono hcall haft⟩

lemma search_mono {answers : Answers} {depth depth' : ℕ} {result : State × Bool}
    (hle : depth ≤ depth') (h : search answers depth s = some result) :
    search answers depth' s = some result := by
  apply foldlM_mono _ s.discovered (s, false) h
  rintro ⟨s₁, ready⟩ d ⟨s₂, ready'⟩ hstep
  unfold searchDriver at hstep ⊢
  dsimp only at hstep ⊢
  generalize (if (s₁.entry d).depexProtocolError = true then
    s₁.readDepex d (answers.readSection d) else s₁) = s₁' at hstep ⊢
  split_ifs at hstep ⊢ with hif
  · rw [Option.map_eq_some_iff] at hstep ⊢
    obtain ⟨s₃, hins, heq⟩ := hstep
    exact ⟨s₃, coreInsertOnScheduledQueue_mono hle hins, heq⟩
  · exact hstep

lemma searchDriver_spec {depth : ℕ} (h : Inv s) (hd : d ∈ s.discovered)
    (hdep : s.discovered.length ≤ depth) (answers : Answers) (readyToRun : Bool) :
    ∃ s' readyToRun', searchDriver answers depth (s, readyToRun) d = some (s', readyToRun') ∧
      Inv s' ∧ s'.discovered = s.discovered := by
  unfold searchDriver
  dsimp only
  generalize hs₁ : (if (s.entry d).depexProtocolError = true then
    s.readDepex d (answers.readSection d) else s) = s₁
  have hinv : Inv s₁ ∧ s₁.discovered = s.discovered := by
    rw [← hs₁]
    split_ifs with hunr
    · exact ⟨inv_readDepex h hd hunr _, (readDepex_same s d _).1⟩
    · exact ⟨h, rfl⟩
  split_ifs with hrun
  · rw [Bool.and_eq_true] at hrun
    have hpla : (s₁.entry d).after = false ∧ (s₁.entry d).before = false := by
      grind [coreIsSchedulable]
    have hd₁ : d ∈ s₁.discovered := hinv.2 ▸ hd
    have hfra : Frames s₁ [d] := by
      refine ⟨hinv.1.distinct, fun b hb => (hinv.1.driver b hb).oneKind, List.nodup_singleton d,
        ?_, List.isChain_singleton d, ?_⟩
      · simpa using hd₁
      · simpa using hpla.symm
    obtain ⟨s₂, hins, hsch, -⟩ := coreInsertOnScheduledQueue_spec depth hfra
      (by simpa [hinv.2] using hdep) hrun.1 (by simp [hpla.1])
    exact ⟨s₂, true, by rw [hins]; rfl, inv_schedules hinv.1 hsch,
      hsch.later.discovered.trans hinv.2⟩
  · exact ⟨s₁, readyToRun, rfl, hinv⟩

lemma search_spec {depth : ℕ} (h : Inv s) (hdep : s.discovered.length ≤ depth)
    (answers : Answers) :
    ∃ s' readyToRun, search answers depth s = some (s', readyToRun) ∧ Inv s' := by
  have hloop : ∀ (list : List DriverId) (s : State) (readyToRun : Bool), Inv s →
      (∀ d ∈ list, d ∈ s.discovered) → s.discovered.length ≤ depth →
      ∃ s' readyToRun',
        list.foldlM (searchDriver answers depth) (s, readyToRun) = some (s', readyToRun') ∧
          Inv s' := by
    intro list
    induction list with
    | nil => exact fun s readyToRun h _ _ => ⟨s, readyToRun, rfl, h⟩
    | cons d list ih =>
      intro s readyToRun h hsub hdep
      obtain ⟨s₁, ready₁, hstep, hinv, hdisc⟩ :=
        searchDriver_spec h (hsub d List.mem_cons_self) hdep answers readyToRun
      obtain ⟨s₂, ready₂, hrest, hinv₂⟩ := ih s₁ ready₁ hinv
        (fun b hb => hdisc ▸ hsub b (List.mem_cons_of_mem _ hb)) (hdisc ▸ hdep)
      grind
  exact hloop s.discovered s false h (fun d hd => hd) hdep

lemma inv_phase (h : Inv s) (phase : Phase) : Inv { s with phase := phase } where
  distinct := h.distinct
  driver := h.driver
  mentions := h.mentions
  nodup := h.nodup
  queue := h.queue
  once := h.once
  orders := h.orders.congr ⟨rfl, fun _ => ⟨rfl, rfl, rfl, rfl⟩⟩ rfl rfl

lemma Reachable.inv (h : Reachable DistinctNames s) : Inv s := by
  induction h with
  | initial h => exact inv_initial h
  | @step s s' h hstep hok ih =>
    cases hstep with
    | add hd fileName fvHandle isFvImage section? =>
      grind [inv_coreAddToDriverList]
    | schedule fv name => exact inv_coreSchedule ih fv name
    | trust fv name => exact inv_coreTrust ih fv name
    | dispatch => exact inv_phase ih _
    | noEvent => exact inv_phase ih _
    | drain _ hque status imageHandle => exact inv_drainHead ih hque status imageHandle
    | drained => exact inv_phase ih _
    | @search s' answers depth readyToRun _ hsea =>
      obtain ⟨s₁, ready₁, hrun, hinv⟩ :=
        search_spec ih (le_max_right depth s.discovered.length) answers
      have heq := (search_mono (le_max_left depth s.discovered.length) hsea).symm.trans hrun
      grind [inv_phase]

theorem dispatched_of_distinctNames (h : Reachable DistinctNames s) : Dispatched s where
  one d hd := (h.inv.driver d hd).one
  nodup := h.inv.nodup
  queue := h.inv.queue
  search answers := by
    obtain ⟨s', readyToRun, hsearch, -⟩ := search_spec h.inv le_rfl answers
    exact ⟨_, _, hsearch⟩
  once := h.inv.once
  before := h.inv.orders.before
  after := h.inv.orders.after

instance (s : State) : Decidable (DistinctNames s) :=
  inferInstanceAs (Decidable (∀ d ∈ s.discovered, ∀ b ∈ s.discovered, _ → _))

/-- The file 1 always may run, and the file 2 runs after it. -/
def twoDrivers : State :=
  coreAddToDriverList 2 (List.replicate 16 2) 7 false
    (.depex efiDepAfter (List.replicate 16 1))
    (coreAddToDriverList 1 (List.replicate 16 1) 7 false (.depex efiDepTrue [])
      ⟨fun _ => .blank [] 0 false, [], [], .idle, []⟩)

def ready : Answers := ⟨fun _ => .error, fun _ => true⟩

/-- The dispatcher before its search. -/
def searching : State := { twoDrivers with phase := .searching }

lemma search_isSome : (search ready 2 searching).isSome = true := by decide

/-- After the search. -/
def bothQueued : State :=
  { ((search ready 2 searching).get search_isSome).1 with phase := .draining }

/-- Access to the image of the first driver is denied; the second one is loaded. -/
def oneLoaded : State :=
  drainHead .success true 2 (drainHead .accessDenied false 1 bothQueued)

lemma oneLoaded_reachable : Reachable DistinctNames oneLoaded := by
  have hini : Reachable DistinctNames ⟨fun _ => .blank [] 0 false, [], [], .idle, []⟩ :=
    .initial ⟨rfl, rfl, rfl, rfl⟩
  have hfil : Reachable DistinctNames twoDrivers :=
    .step (.step hini (.add (by decide) ..) (by decide)) (.add (by decide) ..) (by decide)
  have hsea : Reachable DistinctNames searching :=
    .step (.step hfil (.dispatch (by decide)) (by decide)) (.drained rfl (by decide)) (by decide)
  have hque : Reachable DistinctNames bothQueued := by
    have hrea : ((search ready 2 searching).get search_isSome).2 = true := by decide
    have hsear : search ready 2 searching =
        some (((search ready 2 searching).get search_isSome).1, true) := by
      rw [← hrea]
      exact (Option.some_get search_isSome).symm
    exact .step hsea (.search rfl hsear) (by decide)
  have hfst : bothQueued.queue = [1, 2] := by decide
  have hsec : (drainHead .accessDenied false 1 bothQueued).queue = [2] := by decide
  exact .step (.step hque (.drain rfl hfst ..) (by decide)) (.drain (by decide) hsec ..) (by decide)

lemma oneLoaded_log : oneLoaded.log =
    [.taken 2 .started, .taken 1 .notLoaded, .queued 2, .queued 1, .read 2, .read 1] := by
  decide

theorem dispatched_oneLoaded : Dispatched oneLoaded ∧ .taken 2 .started ∈ oneLoaded.log :=
  ⟨dispatched_of_distinctNames oneLoaded_reachable, by rw [oneLoaded_log]; decide⟩

/-- A driver with `AFTER` is started after the driver that it names has been. -/
def StartedAfter (s : State) : Prop :=
  ∀ later x earlier, s.log = later ++ .taken x .started :: earlier → (s.entry x).after = true →
    ∃ y, (s.entry y).fileName = (s.entry x).beforeAfterGuid ∧ .taken y .started ∈ earlier

theorem started_without_predecessor :
    ∃ s, Reachable DistinctNames s ∧ ¬StartedAfter s := by
  refine ⟨oneLoaded, oneLoaded_reachable, fun h => ?_⟩
  obtain ⟨y, -, hy⟩ := h [] 2 _ oneLoaded_log (by decide)
  revert hy
  simp

/-- The driver `b` waits to be scheduled before `d`. -/
def State.Precedes (s : State) (b d : DriverId) : Prop :=
  b ∈ s.discovered ∧ s.waits CoreDriverEntry.before d b = true

instance : Decidable (s.Precedes b d) := inferInstanceAs (Decidable (_ ∧ _))

/-- The insertion of the driver `d` comes to an end. -/
def Ends (s : State) (d : DriverId) : Prop :=
  ∃ depth, (coreInsertOnScheduledQueue depth s d).isSome

/-- The drivers of `p` are left as they are. -/
structure Apart (p : DriverId → Prop) (s s' : State) : Prop where
  later : Later s s'
  entry : ∀ c, p c → s'.entry c = s.entry c

/-- Each driver of `p` has to be scheduled after another one of them. -/
def Circular (p : DriverId → Prop) (s : State) : Prop := ∀ c, p c → ∃ b, p b ∧ s.Precedes b c

variable {p : DriverId → Prop} {kind : CoreDriverEntry → Bool}

lemma Later.precedes (h : Later s s') (hpre : s'.Precedes b d) : s.Precedes b d := by
  obtain ⟨hb, hwai⟩ := hpre
  obtain ⟨hbef, hdep, hne, hname⟩ := waits_iff.mp hwai
  rw [(h.sameFile d).1, (h.sameFile b).2.2.2] at hname
  exact ⟨h.discovered ▸ hb, waits_iff.mpr
    ⟨(h.sameFile b).2.1 ▸ hbef, h.dependent b hdep, hne, hname⟩⟩

namespace Apart

lemma trans (h : Apart p s s') (h' : Apart p s' s'') : Apart p s s'' :=
  ⟨h.later.trans h'.later, fun c hc => (h'.entry c hc).trans (h.entry c hc)⟩

lemma waits_eq (h : Apart p s s') (hb : p b) : s'.waits kind d b = s.waits kind d b := by
  rw [State.waits, h.entry b hb, (h.later.sameFile d).1, State.waits]

lemma circular (h : Apart p s s') (hcir : Circular p s) : Circular p s' := by
  intro c hc
  obtain ⟨b, hb, hdis, hwai⟩ := hcir c hc
  exact ⟨b, hb, h.later.discovered.symm ▸ hdis, (h.waits_eq hb).trans hwai⟩

end Apart

lemma insertWaiting_apart {insert : State → DriverId → Option State}
    (hins : ∀ s b s', Circular p s → insert s b = some s' → Apart p s s' ∧ ¬p b)
    (hcir : Circular p s) (h : insertWaiting insert kind d s = some s') :
    Apart p s s' ∧ ∀ b ∈ s.discovered, p b → s.waits kind d b = false := by
  unfold insertWaiting at h
  generalize s.discovered = list at h
  induction list generalizing s with
  | nil =>
    obtain rfl := Option.some.inj h
    exact ⟨⟨.refl s, fun _ _ => rfl⟩, by simp⟩
  | cons b list ih =>
    rw [List.foldlM_cons] at h
    obtain ⟨s₁, hstep, hrest⟩ := Option.bind_eq_some_iff.mp h
    obtain ⟨hapa, hb⟩ : Apart p s s₁ ∧ (p b → s.waits kind d b = false) := by
      split_ifs at hstep with hwai
      · obtain ⟨hapa, hnot⟩ := hins s b s₁ hcir hstep
        exact ⟨hapa, fun hb => absurd hb hnot⟩
      · obtain rfl := Option.some.inj hstep
        exact ⟨⟨.refl s, fun _ _ => rfl⟩, fun _ => by simpa using hwai⟩
    obtain ⟨hapa', hlist⟩ := ih (hapa.circular hcir) hrest
    refine ⟨hapa.trans hapa', fun c hc hpc => ?_⟩
    rcases List.mem_cons.mp hc with rfl | hc
    · exact hb hpc
    · exact (hapa.waits_eq hpc).symm.trans (hlist c hc hpc)

/-- No driver of a circle is ever scheduled. -/
lemma insertion_apart {depth : ℕ} (hcir : Circular p s)
    (h : coreInsertOnScheduledQueue depth s d = some s') : Apart p s s' ∧ ¬p d := by
  induction depth generalizing s d s' with
  | zero => simp [coreInsertOnScheduledQueue] at h
  | succ depth ih =>
    rw [coreInsertOnScheduledQueue] at h
    obtain ⟨s₁, hbef, haft⟩ := Option.bind_eq_some_iff.mp h
    obtain ⟨hapa, hnone⟩ := insertWaiting_apart (fun _ _ _ => ih) hcir hbef
    have hd : ¬p d := by
      intro hd
      obtain ⟨b, hb, hdis, hwai⟩ := hcir d hd
      exact Bool.noConfusion (hwai.symm.trans (hnone b hdis hb))
    have hsch : Apart p s₁ (s₁.schedule d) :=
      ⟨later_schedule s₁ d, fun c hc => schedule_entry_of_ne (fun heq => hd (heq ▸ hc))⟩
    have hapa₁ := hapa.trans hsch
    exact ⟨hapa₁.trans (insertWaiting_apart (fun _ _ _ => ih) (hapa₁.circular hcir) haft).1, hd⟩

lemma insertion_later {depth : ℕ} (h : coreInsertOnScheduledQueue depth s d = some s') :
    Later s s' :=
  (insertion_apart (p := fun _ => False) (fun _ => False.elim) h).1.later

/-- What has to be scheduled after a driver of a circle is called for again and again. -/
theorem insertion_endless (hcir : Relation.TransGen s.Precedes d d)
    (hpre : Relation.ReflTransGen s.Precedes d x) (depth : ℕ) :
    coreInsertOnScheduledQueue depth s x = none := by
  rw [Option.eq_none_iff_forall_ne_some]
  intro s' h
  apply (insertion_apart (p := Relation.TransGen s.Precedes d) (fun c hc => ?_) h).2
  · exact hcir.trans_left hpre
  · obtain ⟨b, hb, hbc⟩ := Relation.TransGen.tail'_iff.mp hc
    rcases Relation.reflTransGen_iff_eq_or_transGen.mp hb with rfl | hb
    · exact ⟨b, hcir, hbc⟩
    · exact ⟨b, hb, hbc⟩

/-- Three files of one name: the first one may run, and the other two wait to run before it. -/
example (depth : ℕ) : coreInsertOnScheduledQueue depth
    ⟨fun d => { CoreDriverEntry.blank [] 0 false with before := d ≠ 1, dependent := true },
      [1, 2, 3], [], .idle, []⟩ 1 = none :=
  insertion_endless (d := 2) (.tail (b := 3) (.single (by decide)) (by decide))
    (.single (by decide)) depth

lemma insertWaiting_ends (h : ∀ s₁ b, Later s s₁ → b ∈ s₁.discovered →
      s₁.waits kind d b = true → Ends s₁ b) :
    ∃ depth s', insertWaiting (coreInsertOnScheduledQueue depth) kind d s = some s' := by
  have hloop : ∀ list : List DriverId, (∀ b ∈ list, b ∈ s.discovered) → ∀ s₁, Later s s₁ →
      ∃ depth s', list.foldlM (fun s b =>
        if s.waits kind d b then coreInsertOnScheduledQueue depth s b else some s) s₁ = some s' := by
    intro list
    induction list with
    | nil => exact fun _ s₁ _ => ⟨0, s₁, rfl⟩
    | cons b list ih =>
      intro hsub s₁ hlat
      obtain ⟨depth, s₂, hstep, hlat₂⟩ : ∃ depth s₂, (if s₁.waits kind d b then
          coreInsertOnScheduledQueue depth s₁ b else some s₁) = some s₂ ∧ Later s s₂ := by
        by_cases hwai : s₁.waits kind d b = true
        · have hb : b ∈ s₁.discovered := hlat.discovered ▸ hsub b List.mem_cons_self
          obtain ⟨depth, hrun⟩ := h s₁ b hlat hb hwai
          obtain ⟨s₂, hrun⟩ := Option.isSome_iff_exists.mp hrun
          exact ⟨depth, s₂, by rw [if_pos hwai, hrun], hlat.trans (insertion_later hrun)⟩
        · exact ⟨0, s₁, by rw [if_neg hwai], hlat⟩
      obtain ⟨depth', s', hrest⟩ := ih (fun x hx => hsub x (List.mem_cons_of_mem b hx)) s₂ hlat₂
      refine ⟨max depth depth', s', ?_⟩
      rw [List.foldlM_cons]
      refine Option.bind_eq_some_iff.mpr ⟨s₂, ?_, foldlM_mono (fun s a s₃ hs => ?_) list s₂ hrest⟩
      · split_ifs at hstep ⊢
        · exact coreInsertOnScheduledQueue_mono (Nat.le_max_left ..) hstep
        · exact hstep
      · split_ifs at hs ⊢
        · exact coreInsertOnScheduledQueue_mono (Nat.le_max_right ..) hs
        · exact hs
  exact hloop s.discovered (fun _ hb => hb) s (.refl s)

lemma ends_of_waiting (hbef : ∀ s₁ b, Later s s₁ → s₁.Precedes b d → Ends s₁ b)
    (haft : ∀ s₁ b, Later s s₁ → (s₁.entry d).dependent = false → b ∈ s₁.discovered →
      (s₁.entry b).dependent = true → Ends s₁ b) : Ends s d := by
  obtain ⟨depth, s₁, hrun⟩ := insertWaiting_ends (fun s₁ b hlat hb hwai =>
    hbef s₁ b hlat ⟨hb, hwai⟩)
  have hlat := (insertWaiting_apart (p := fun _ => False) (fun _ _ _ => insertion_apart)
    (fun _ => False.elim) hrun).1.later.trans (later_schedule s₁ d)
  obtain ⟨depth', s', hrun'⟩ : ∃ depth s', insertWaiting (coreInsertOnScheduledQueue depth)
      CoreDriverEntry.after d (s₁.schedule d) = some s' := by
    refine insertWaiting_ends fun s₂ b hlat' hb hwai =>
      haft s₂ b (hlat.trans hlat') ?_ hb (waits_iff.mp hwai).2.1
    by_contra hdep
    simpa using hlat'.dependent d (by simpa using hdep)
  refine ⟨max depth depth' + 1, Option.isSome_iff_exists.mpr ⟨s', ?_⟩⟩
  rw [coreInsertOnScheduledQueue]
  exact Option.bind_eq_some_iff.mpr ⟨s₁, insertWaiting_mono (fun _ _ _ =>
    coreInsertOnScheduledQueue_mono (Nat.le_max_left ..)) hrun, insertWaiting_mono
    (fun _ _ _ => coreInsertOnScheduledQueue_mono (Nat.le_max_right ..)) hrun'⟩

/-- The drivers that may still be scheduled are on `list`: there is one less after each call that
processes drivers with `AFTER`. -/
lemma ends_of_dependent (hwf : WellFounded s.Precedes) (n : ℕ) (d : DriverId) (s₁ : State)
    (list : List DriverId) (hlat : Later s s₁) (hd : d ∈ s₁.discovered)
    (hdep : (s₁.entry d).dependent = true)
    (hlist : ∀ b ∈ s₁.discovered, (s₁.entry b).dependent = true → b ∈ list)
    (hlen : list.length ≤ n) : Ends s₁ d := by
  induction n generalizing d s₁ list with
  | zero =>
    have hmem := hlist d hd hdep
    rw [List.length_eq_zero_iff.mp (Nat.le_zero.mp hlen)] at hmem
    simp at hmem
  | succ n ih =>
    induction d using hwf.induction generalizing s₁ list with
    | _ d ihd =>
      have hlist' : ∀ s₂, Later s₁ s₂ → ∀ b ∈ s₂.discovered, (s₂.entry b).dependent = true →
          b ∈ list := fun s₂ h b hb hdep =>
        hlist b (h.discovered ▸ hb) (h.dependent b hdep)
      apply ends_of_waiting
      · intro s₂ b hlat' hpre
        exact ihd b ((hlat.trans hlat').precedes hpre) s₂ list (hlat.trans hlat') hpre.1
          (waits_iff.mp hpre.2).2.1 (hlist' s₂ hlat') hlen
      · intro s₂ b hlat' hdone hb hdep'
        apply ih b s₂ (list.erase d) (hlat.trans hlat') hb hdep'
        · intro x hx hx'
          have hne : x ≠ d := by
            rintro rfl
            exact Bool.noConfusion (hdone.symm.trans hx')
          exact (List.mem_erase_of_ne hne).mpr (hlist' s₂ hlat' x hx hx')
        · rw [List.length_erase_of_mem (hlist d hd hdep)]
          omega

lemma wellFounded_precedes (h : ∀ d, ¬Relation.TransGen s.Precedes d d) :
    WellFounded s.Precedes := by
  have : IsStrictOrder DriverId (Relation.TransGen s.Precedes) :=
    { irrefl := h, trans := fun _ _ _ => Relation.TransGen.trans }
  have hacc : ∀ b ∈ s.discovered, Acc s.Precedes b := fun b hb =>
    (List.finite_toSet s.discovered).wellFoundedOn.induction (r := Relation.TransGen s.Precedes) hb
      fun y _ ih => Acc.intro y fun z hz => ih z hz.1 (.single hz)
  exact ⟨fun d => Acc.intro d fun b hb => hacc b hb.1⟩

/-- The recursion ends if no driver has to be scheduled before itself, and only then. -/
theorem ends_iff : (∀ d, Ends s d) ↔ ∀ d, ¬Relation.TransGen s.Precedes d d := by
  constructor
  · intro h d hcir
    obtain ⟨depth, hrun⟩ := h d
    simp [insertion_endless hcir .refl] at hrun
  · intro h d
    have hdep : ∀ s₁ b, Later s s₁ → b ∈ s₁.discovered → (s₁.entry b).dependent = true →
        Ends s₁ b := fun s₁ b hlat hb hdep =>
      ends_of_dependent (wellFounded_precedes h) s₁.discovered.length b s₁ s₁.discovered hlat hb
        hdep (fun _ hx _ => hx) (le_refl _)
    apply ends_of_waiting
    · exact fun s₁ b hlat hpre => hdep s₁ b hlat hpre.1 (waits_iff.mp hpre.2).2.1
    · exact fun s₁ b hlat _ => hdep s₁ b hlat

end Edk2.Dispatcher.Scheduler
