import Edk2.DiskIo.Subtasks

/-!
# Tasks and tokens

The tasks in the queue are those that are allocated. The subtasks of a task are the ones that the
device has accepted and, while the call is in its loop, the ones that were not handed over yet. The
token of a task is taken away when it is signalled.
-/

namespace Edk2.DiskIo

variable {media : Media} {s s' : State}

lemma map_filter_eraseIdx {α β : Type} [DecidableEq β] {f : α → Bool} {g : α → β} {l : List α}
    {position : ℕ} {x : α} (hx : l[position]? = some x) (hf : f x = true)
    (hnod : ((l.filter f).map g).Nodup) :
    ((l.eraseIdx position).filter f).map g = ((l.filter f).map g).erase (g x) := by
  induction l generalizing position with
  | nil => simp at hx
  | cons y rest ih =>
    cases position with
    | zero =>
      grind
    | succ position =>
      rw [List.getElem?_cons_succ] at hx
      rw [List.eraseIdx_cons_succ]
      grind

lemma filter_eraseIdx_of_neg {α : Type} {f : α → Bool} {l : List α} {position : ℕ} {x : α}
    (hx : l[position]? = some x) (hf : f x = false) :
    (l.eraseIdx position).filter f = l.filter f := by
  induction l generalizing position with
  | nil => simp at hx
  | cons y rest ih =>
    cases position with
    | zero =>
      grind
    | succ position =>
      simp [List.eraseIdx_cons_succ, List.filter_cons, ih hx]

lemma foldl_destroySubtask {task : Task} {front : List ℕ} {back : List (ℕ × Subtask)}
    (h : task.subtasks = front ++ back.map Prod.fst) (hnod : task.subtasks.Nodup) :
    (back.foldl (fun task x => task.destroySubtask x.1) task) =
      { task with subtasks := front } := by
  induction back generalizing task with
  | nil =>
    rw [List.map_nil, List.append_nil] at h
    rw [← h]
    rfl
  | cons x rest ih =>
    grind [Task.destroySubtask, List.erase_append_right, List.erase_cons_head]

/-- The subtasks of the call that were not handed over. -/
def State.waiting (s : State) (id : ℕ) : List ℕ :=
  match s.call with
  | some c => if c.task = id then c.rest.map Prod.fst else []
  | none => []

/-- The subtasks of a task that the device has accepted. -/
def State.accepted (s : State) (id : ℕ) : List ℕ :=
  (s.inflight.filter fun t => t.task = id).map Transfer.index

/-- The task has the token of the request. -/
def State.Holds (s : State) (id : ℕ) (task : Task) (k : ℕ) : Prop :=
  s.heap id = some task ∧ task.token = some k

structure TaskInv (s : State) : Prop where
  queue : ∀ id, id ∈ s.taskQueue ↔ (s.heap id).isSome
  queueNodup : s.taskQueue.Nodup
  fresh : ∀ id, (s.heap id).isSome → id < s.fresh
  subtasks : ∀ id task, s.heap id = some task → task.subtasks = s.accepted id ++ s.waiting id
  nodup : ∀ id task, s.heap id = some task → task.subtasks.Nodup
  inflight : ∀ t ∈ s.inflight, (s.heap t.task).isSome
  callTask : ∀ c, s.call = some c → (s.heap c.task).isSome
  /-- A token that a task has was not signalled, and is of a call that returned or of the one in
  its loop. -/
  token : ∀ id task k, s.Holds id task k → s.signalled.count k = 0 ∧
    (k < s.log.length ∨ ∃ c, s.call = some c ∧ c.task = id ∧ k = s.log.length)
  unique : ∀ id id' task task' k, s.Holds id task k → s.Holds id' task' k → id = id'
  past : ∀ k request status, s.log[k]? = some (request, status) →
    (status.isError = true → s.signalled.count k = 0 ∧ ∀ id task, ¬s.Holds id task k) ∧
    (status.isError = false → s.signalled.count k = 1 ∨
      ∃ id task, s.Holds id task k ∧ task.subtasks ≠ [])
  present : ∀ c task, s.call = some c → s.heap c.task = some task →
    task.token = some s.log.length ∨ s.signalled.count s.log.length = 1 ∧ task.token = none ∧
      ∃ st ∈ c.done, st.blocking = false
  future : ∀ k, s.log.length ≤ k → (k = s.log.length → s.call = none) → s.signalled.count k = 0
  /-- What the device has accepted of the call was not blocking. -/
  handed : ∀ c, s.call = some c → ∀ t ∈ s.inflight, t.task = c.task →
    ∃ st ∈ c.done, st.blocking = false
  failed : ∀ c, s.call = some c → c.status.isError = true →
    c.rest = [] ∧ ∀ st ∈ c.done, st.blocking = true

lemma taskInv_initial (disk : ℕ → Byte) : TaskInv (State.initial disk) := by
  constructor <;> simp [State.initial, State.Holds]

/-! ### A new request -/

lemma removeCompletedTask_spec {queue queue' : List ℕ} {heap heap' : ℕ → Option Task}
    (h : removeCompletedTask queue heap = some (queue', heap')) (hnod : queue.Nodup) :
    queue'.Sublist queue ∧
      (∀ id, id ∈ queue' ↔ id ∈ queue ∧ ∃ task, heap id = some task ∧ task.subtasks ≠ []) ∧
      ∀ id task, heap' id = some task ↔
        heap id = some task ∧ (id ∈ queue → task.subtasks ≠ []) := by
  induction queue generalizing queue' heap with
  | nil =>
    obtain ⟨rfl, rfl⟩ := Prod.mk.inj (Option.some.inj h)
    simp
  | cons id rest ih =>
    obtain ⟨hnot, hnod⟩ := List.nodup_cons.mp hnod
    rw [removeCompletedTask] at h
    obtain ⟨task, htask, h⟩ := Option.bind_eq_some_iff.mp h
    by_cases hemp : task.subtasks = []
    · rw [if_pos hemp] at h
      obtain ⟨hsub, hque, hheap⟩ := ih h hnod
      refine ⟨hsub.trans (List.sublist_cons_self _ _), fun x => ?_, fun x task' => ?_⟩
      · grind
      grind
    · rw [if_neg hemp] at h
      obtain ⟨⟨queue'', heap''⟩, hrest, h⟩ := Option.bind_eq_some_iff.mp h
      obtain ⟨rfl, rfl⟩ := Prod.mk.inj (Option.some.inj h)
      obtain ⟨hsub, hque, hheap⟩ := ih hrest hnod
      refine ⟨hsub.cons_cons id, fun x => ?_, fun x task' => ?_⟩
      · grind
      grind

lemma TaskInv.removeCompleted {queue : List ℕ} {heap : ℕ → Option Task} (h : TaskInv s)
    (hidle : s.call = none)
    (hrem : removeCompletedTask s.taskQueue s.heap = some (queue, heap)) :
    TaskInv { s with
      taskQueue := queue
      heap := heap } := by
  obtain ⟨hsub, hque, hheap⟩ := removeCompletedTask_spec hrem h.queueNodup
  have hsome : ∀ id task, heap id = some task ↔ s.heap id = some task ∧ task.subtasks ≠ [] := by
    intro id task
    rw [hheap]
    constructor
    · rintro ⟨htask, hne⟩
      exact ⟨htask, hne ((h.queue id).mpr (by rw [htask]; rfl))⟩
    · exact fun h => ⟨h.1, fun _ => h.2⟩
  have hlive : ∀ id, (heap id).isSome ↔ ∃ task, s.heap id = some task ∧ task.subtasks ≠ [] := by
    intro id
    rw [Option.isSome_iff_exists]
    simp only [hsome]
  refine ⟨fun id => ?_, h.queueNodup.sublist hsub, fun id hid => ?_, fun id task htask => ?_,
    fun id task htask => ?_, fun t ht => ?_, ?_, ?_, ?_, ?_, ?_, h.future, h.handed, h.failed⟩
  · rw [hque, hlive, h.queue]
    grind
  · obtain ⟨task, htask, -⟩ := (hlive id).mp hid
    exact h.fresh id (by rw [htask]; rfl)
  · exact h.subtasks id task ((hsome id task).mp htask).1
  · exact h.nodup id task ((hsome id task).mp htask).1
  · obtain ⟨task, htask⟩ := Option.isSome_iff_exists.mp (h.inflight t ht)
    refine (hlive t.task).mpr ⟨task, htask, ?_⟩
    rw [h.subtasks t.task task htask]
    grind [State.accepted, List.map_eq_nil_iff, List.filter_eq_nil_iff,
      List.append_ne_nil_of_left_ne_nil]
  · intro c hc
    rw [hidle] at hc
    cases hc
  · exact fun id task k hk => h.token id task k ⟨((hsome id task).mp hk.1).1, hk.2⟩
  · exact fun id id' task task' k hk hk' => h.unique id id' task task' k
      ⟨((hsome id task).mp hk.1).1, hk.2⟩ ⟨((hsome id' task').mp hk'.1).1, hk'.2⟩
  · intro k request status hlog
    refine ⟨fun herr => ?_, fun hok => ?_⟩
    · obtain ⟨hcnt, hnone⟩ := (h.past k request status hlog).1 herr
      exact ⟨hcnt, fun id task hk => hnone id task ⟨((hsome id task).mp hk.1).1, hk.2⟩⟩
    · refine ((h.past k request status hlog).2 hok).imp_right ?_
      rintro ⟨id, task, hk, hne⟩
      exact ⟨id, task, ⟨(hsome id task).mpr ⟨hk.1, hne⟩, hk.2⟩, hne⟩
  · intro c task hc
    rw [hidle] at hc
    cases hc

lemma TaskInv.refused {request : Request} {status : EfiStatus} (h : TaskInv s)
    (hidle : s.call = none) (hst : status.isError = true) :
    TaskInv { s with log := s.log ++ [(request, status)] } := by
  refine ⟨h.queue, h.queueNodup, h.fresh, h.subtasks, h.nodup, h.inflight, h.callTask,
    fun id task k hk => ?_, h.unique, fun k request' status' hlog => ?_, ?_, fun k hk _ => ?_,
    h.handed, h.failed⟩
  · obtain ⟨hcnt, hlt | ⟨c, hc, -⟩⟩ := h.token id task k hk
    · simp [List.length_append]
      omega
    · rw [hidle] at hc
      cases hc
  · by_cases hlt : k < s.log.length
    · rw [List.getElem?_append_left hlt] at hlog
      exact h.past k request' status' hlog
    · have hk : k = s.log.length := by
        grind
      subst hk
      rw [List.getElem?_concat_length, Option.some.injEq, Prod.mk.injEq] at hlog
      refine ⟨fun _ => ⟨h.future _ le_rfl fun _ => hidle, fun id task hk => ?_⟩, fun hok => ?_⟩
      · obtain ⟨-, hlt | ⟨c, hc, -⟩⟩ := h.token id task _ hk
        · omega
        · rw [hidle] at hc
          cases hc
      · rw [← hlog.2, hst] at hok
        cases hok
  · intro c task hc
    rw [hidle] at hc
    cases hc
  · rw [List.length_append] at hk
    exact h.future k (by omega) fun _ => hidle

lemma update_eq_some {heap : ℕ → Option Task} {i j : ℕ} {a b : Task} :
    Function.update heap i (some a) j = some b ↔ j = i ∧ a = b ∨ j ≠ i ∧ heap j = some b := by
  by_cases hj : j = i
  · subst hj
    simp
  · simp [hj]

lemma TaskInv.started {c : Call} {n : ℕ} (h : TaskInv s) (hidle : s.call = none)
    (hque : s'.taskQueue = s.taskQueue ++ [s.fresh])
    (hheap : s'.heap = Function.update s.heap s.fresh (some ⟨some s.log.length, List.range n⟩))
    (hfre : s'.fresh = s.fresh + 1) (hinf : s'.inflight = s.inflight)
    (hcall : s'.call = some c) (hlog : s'.log = s.log) (hsig : s'.signalled = s.signalled)
    (htask : c.task = s.fresh) (hrest : c.rest.map Prod.fst = List.range n)
    (hst : c.status.isError = false) : TaskInv s' := by
  have hfree : s.heap s.fresh = none := by
    by_contra hsome
    exact Nat.lt_irrefl _ (h.fresh s.fresh (Option.isSome_iff_ne_none.mpr hsome))
  have hsome : ∀ id task, s'.heap id = some task ↔
      id = s.fresh ∧ ⟨some s.log.length, List.range n⟩ = task ∨
        id ≠ s.fresh ∧ s.heap id = some task := by
    intro id task
    rw [hheap, update_eq_some]
  have hlive : ∀ id, (s'.heap id).isSome ↔ id = s.fresh ∨ (s.heap id).isSome := by
    intro id
    rw [hheap]
    grind
  have hbel : ∀ t ∈ s.inflight, t.task ≠ s.fresh := by
    intro t ht heq
    have := h.inflight t ht
    rw [heq, hfree] at this
    cases this
  have htok : ∀ id task k, s.Holds id task k → k < s.log.length := by
    intro id task k hk
    obtain ⟨-, hlt | ⟨c, hc, -⟩⟩ := h.token id task k hk
    · exact hlt
    · rw [hidle] at hc
      cases hc
  have hhol : ∀ id task k, s'.Holds id task k → id = s.fresh ∧ k = s.log.length ∨
      id ≠ s.fresh ∧ s.Holds id task k := by
    rintro id task k ⟨hid, hk⟩
    rcases (hsome id task).mp hid with ⟨rfl, rfl⟩ | ⟨hne, hid⟩
    · exact Or.inl ⟨rfl, (Option.some.inj hk).symm⟩
    · exact Or.inr ⟨hne, hid, hk⟩
  have hnew : s.signalled.count s.log.length = 0 := h.future _ le_rfl fun _ => hidle
  refine ⟨fun id => ?_, ?_, fun id hid => ?_, fun id task hid => ?_, fun id task hid => ?_,
    fun t ht => ?_, fun c' hc' => ?_, fun id task k hk => ?_, fun id id' task task' k hk hk' => ?_,
    fun k request' status hlog' => ?_, fun c' task hc' hid => ?_, fun k hk _ => ?_,
    fun c' hc' t ht heq => ?_, fun c' hc' herr => ?_⟩
  · rw [hque, hlive, List.mem_append, List.mem_singleton, h.queue, or_comm]
  · rw [hque]
    refine List.nodup_append.mpr
      ⟨h.queueNodup, List.pairwise_singleton _ _, fun id hid id' hid' => ?_⟩
    rw [List.mem_singleton.mp hid']
    rintro rfl
    have := (h.queue _).mp hid
    rw [hfree] at this
    cases this
  · rw [hfre]
    rcases (hlive id).mp hid with rfl | hid
    · exact Nat.lt_succ_self _
    · exact (h.fresh id hid).trans (Nat.lt_succ_self _)
  · have hwai : s'.waiting id = if s.fresh = id then List.range n else [] := by
      rw [State.waiting, hcall]
      simp only [htask, hrest]
    have hacc : s'.accepted id = s.accepted id := by rw [State.accepted, hinf]; rfl
    rw [hwai, hacc]
    rcases (hsome id task).mp hid with ⟨rfl, rfl⟩ | ⟨hne, hid⟩
    · have hnone : s.accepted s.fresh = [] := by
        simpa [State.accepted] using hbel
      simp [hnone]
    · rw [if_neg (Ne.symm hne), List.append_nil, h.subtasks id task hid, State.waiting, hidle,
        List.append_nil]
  · rcases (hsome id task).mp hid with ⟨rfl, rfl⟩ | ⟨hne, hid⟩
    · exact List.nodup_range
    · exact h.nodup id task hid
  · rw [hinf] at ht
    exact (hlive _).mpr (Or.inr (h.inflight t ht))
  · grind
  · rw [hsig, hlog]
    rcases hhol id task k hk with ⟨rfl, rfl⟩ | ⟨hne, hk⟩
    · exact ⟨hnew, Or.inr ⟨c, hcall, htask, rfl⟩⟩
    · exact ⟨(h.token id task k hk).1, Or.inl (htok id task k hk)⟩
  · rcases hhol id task k hk with ⟨rfl, rfl⟩ | ⟨hne, hk⟩ <;>
      rcases hhol id' task' _ hk' with ⟨rfl, heq⟩ | ⟨hne', hk'⟩
    · rfl
    · exact absurd (htok _ _ _ hk') (Nat.lt_irrefl _)
    · exact absurd (heq ▸ htok _ _ _ hk) (Nat.lt_irrefl _)
    · exact h.unique id id' task task' k hk hk'
  · rw [hlog] at hlog'
    have hlt := (List.getElem?_eq_some_iff.mp hlog').1
    rw [hsig]
    refine ⟨fun herr => ⟨((h.past k request' status hlog').1 herr).1, fun id task hk => ?_⟩,
      fun hok => ((h.past k request' status hlog').2 hok).imp_right ?_⟩
    · rcases hhol id task k hk with ⟨-, rfl⟩ | ⟨-, hk⟩
      · exact Nat.lt_irrefl _ hlt
      · exact ((h.past k request' status hlog').1 herr).2 id task hk
    · rintro ⟨id, task, hk, hne⟩
      have hid : id ≠ s.fresh := fun heq => by
        have := hk.1
        rw [heq, hfree] at this
        cases this
      exact ⟨id, task, ⟨(hsome id task).mpr (Or.inr ⟨hid, hk.1⟩), hk.2⟩, hne⟩
  · grind
  · rw [hlog] at hk
    rw [hsig]
    exact h.future k hk fun _ => hidle
  · grind
  grind

lemma TaskInv.begin {request : Request} {taskAllocated : Bool} {answers : List Bool}
    (h : TaskInv s) (hidle : s.call = none)
    (hcar : Careful media s (.call request taskAllocated answers))
    (hstep : begin media s request taskAllocated answers = some s') : TaskInv s' := by
  obtain ⟨queue, heap, hrem, ⟨-, rfl⟩ | ⟨hall, hcre, rfl⟩ |
    ⟨subtasks, answers', -, -, rfl⟩⟩ := begin_cases hstep
  · exact (h.removeCompleted hidle hrem).refused hidle rfl
  · have := (hcar hall).1
    rw [hcre] at this
    cases this
  · refine (h.removeCompleted hidle hrem).started hidle rfl rfl rfl rfl rfl rfl rfl rfl ?_ rfl
    rw [List.map_map, List.range_eq_range']
    exact List.zipIdx_map_snd 0 subtasks

/-! ### Turns of the loop -/

lemma TaskInv.handOver {c : Call} {task : Task} (h : TaskInv s) (c' : Call) (subtasks : List ℕ)
    (hc : s.call = some c) (htask : s.heap c.task = some task)
    (hque : s'.taskQueue = s.taskQueue)
    (hheap : s'.heap = Function.update s.heap c.task (some { task with subtasks := subtasks }))
    (hfre : s'.fresh = s.fresh) (hcall : s'.call = some c') (hlog : s'.log = s.log)
    (hsig : s'.signalled = s.signalled) (hsame : c'.task = c.task)
    (hdone : ∀ st ∈ c.done, st ∈ c'.done)
    (hlist : subtasks = s'.accepted c.task ++ c'.rest.map Prod.fst)
    (hsub : subtasks.Sublist task.subtasks)
    (hoth : ∀ t ∈ s'.inflight, t ∈ s.inflight ∨ t.task = c.task ∧ ∃ st ∈ c'.done,
      st.blocking = false)
    (hacc : ∀ id, id ≠ c.task → s'.accepted id = s.accepted id)
    (hfai : c'.status.isError = true → c'.rest = [] ∧ ∀ st ∈ c'.done, st.blocking = true) :
    TaskInv s' := by
  have hsome : ∀ id task', s'.heap id = some task' ↔
      id = c.task ∧ { task with subtasks := subtasks } = task' ∨
        id ≠ c.task ∧ s.heap id = some task' := by
    intro id task'
    rw [hheap, update_eq_some]
  have hlive : ∀ id, (s'.heap id).isSome ↔ (s.heap id).isSome := by
    intro id
    rw [hheap]
    grind
  have hhol : ∀ id task' k, s'.Holds id task' k → ∃ task'', s.Holds id task'' k := by
    rintro id task' k ⟨hid, hk⟩
    rcases (hsome id task').mp hid with ⟨rfl, rfl⟩ | ⟨hne, hid⟩
    · exact ⟨task, htask, hk⟩
    · exact ⟨task', hid, hk⟩
  refine ⟨fun id => by rw [hque, hlive]; exact h.queue id, hque ▸ h.queueNodup,
    fun id hid => by rw [hfre]; exact h.fresh id ((hlive id).mp hid), fun id task' hid => ?_,
    fun id task' hid => ?_, fun t ht => ?_, fun c'' hc'' => ?_, fun id task' k hk => ?_,
    fun id id' task' task'' k hk hk' => ?_, fun k request status hlog' => ?_,
    fun c'' task' hc'' hid => ?_, fun k hk hnone => ?_, fun c'' hc'' t ht heq => ?_,
    fun c'' hc'' => ?_⟩
  · rw [State.waiting, hcall]
    dsimp only
    rw [hsame]
    rcases (hsome id task').mp hid with ⟨rfl, rfl⟩ | ⟨hne, hid⟩
    · rw [if_pos rfl]
      exact hlist
    · rw [if_neg (Ne.symm hne), hacc id hne, h.subtasks id task' hid, State.waiting, hc]
      dsimp only
      rw [if_neg (Ne.symm hne)]
  · rcases (hsome id task').mp hid with ⟨rfl, rfl⟩ | ⟨hne, hid⟩
    · exact (h.nodup _ task htask).sublist hsub
    · exact h.nodup id task' hid
  · rw [hlive]
    rcases hoth t ht with ht | ⟨heq, -⟩
    · exact h.inflight t ht
    · rw [heq, htask]
      rfl
  · grind
  · obtain ⟨task'', hk'⟩ := hhol id task' k hk
    rw [hsig, hlog]
    refine ⟨(h.token id task'' k hk').1, (h.token id task'' k hk').2.imp_right ?_⟩
    grind
  · obtain ⟨t, ht⟩ := hhol id task' k hk
    obtain ⟨t', ht'⟩ := hhol id' task'' k hk'
    exact h.unique id id' t t' k ht ht'
  · rw [hlog] at hlog'
    have hlt := (List.getElem?_eq_some_iff.mp hlog').1
    rw [hsig]
    refine ⟨fun herr => ⟨((h.past k request status hlog').1 herr).1, fun id task' hk => ?_⟩,
      fun hok => ((h.past k request status hlog').2 hok).imp_right ?_⟩
    · obtain ⟨t, ht⟩ := hhol id task' k hk
      exact ((h.past k request status hlog').1 herr).2 id t ht
    · rintro ⟨id, task', hk, hne⟩
      have hid : id ≠ c.task := by
        rintro rfl
        have heq : task = task' := Option.some.inj (htask.symm.trans hk.1)
        subst heq
        rcases h.present c task hc htask with htok | ⟨-, hnone, -⟩
        · have := htok.symm.trans hk.2
          rw [Option.some.injEq] at this
          omega
        · have := hnone.symm.trans hk.2
          cases this
      exact ⟨id, task', ⟨(hsome id task').mpr (Or.inr ⟨hid, hk.1⟩), hk.2⟩, hne⟩
  · rw [hcall] at hc''
    obtain rfl := Option.some.inj hc''
    rw [hsame] at hid
    rw [hlog, hsig]
    rcases (hsome c.task task').mp hid with ⟨-, rfl⟩ | ⟨hne, -⟩
    · refine (h.present c task hc htask).imp_right ?_
      grind
    · exact absurd rfl hne
  · rw [hlog] at hk hnone
    rw [hsig]
    refine h.future k hk fun heq => ?_
    rw [hnone heq] at hcall
    cases hcall
  · rw [hcall] at hc''
    obtain rfl := Option.some.inj hc''
    rcases hoth t ht with ht | ⟨-, hst⟩
    · obtain ⟨st, hst, hblo⟩ := h.handed c hc t ht (heq.trans hsame)
      exact ⟨st, hdone st hst, hblo⟩
    · exact hst
  grind

lemma TaskInv.submit {status : EfiStatus} (h : TaskInv s)
    (hcar : Careful media s (.submit status)) (hstep : submit media s status = some s') :
    TaskInv s' := by
  obtain ⟨c, task, index, subtask, rest, hc, htask, hrest, hcas⟩ := submit_cases hstep
  have hlist : task.subtasks = s.accepted c.task ++ index :: rest.map Prod.fst := by
    rw [h.subtasks c.task task htask, State.waiting, hc]
    simp [hrest]
  have hnod := h.nodup c.task task htask
  rcases hcas with ⟨herr, rfl⟩ | ⟨-, rfl⟩
  · refine h.handOver { c with
      rest := []
      status := status } (s.accepted c.task) hc htask rfl ?_ rfl rfl rfl rfl rfl
      (fun st hst => hst) ?_ ?_ (fun t ht => Or.inl ht) (fun id _ => rfl) ?_
    · rw [foldl_destroySubtask (by rw [hlist]; rfl) hnod]
    · rw [List.map_nil, List.append_nil]
      rfl
    · rw [hlist]
      exact List.sublist_append_left _ _
    · exact fun _ => ⟨rfl, fun st hst => (hcar herr c hc st hst).1⟩
  · have hnot : index ∉ s.accepted c.task := by
      grind
    have hfai : (nextCall media s c subtask rest).status.isError = true →
        (nextCall media s c subtask rest).rest = [] ∧
          ∀ st ∈ (nextCall media s c subtask rest).done, st.blocking = true := by
      intro herr
      rw [(h.failed c hc herr).1] at hrest
      cases hrest
    have hmem : ∀ t ∈ (accept media s c index subtask rest task).inflight, t ∈ s.inflight ∨
        t.task = c.task ∧ ∃ st ∈ (nextCall media s c subtask rest).done, st.blocking = false := by
      intro t ht
      refine (mem_accept_inflight ht).imp_right ?_
      rintro ⟨hblo, rfl⟩
      exact ⟨rfl, subtask, List.mem_append_right _ (List.mem_singleton_self _), hblo⟩
    have hdone : ∀ st ∈ c.done, st ∈ (nextCall media s c subtask rest).done :=
      fun st hst => List.mem_append_left _ hst
    cases hblo : subtask.blocking with
    | true =>
      have hinf : (accept media s c index subtask rest task).inflight = s.inflight := by
        rw [accept_inflight, if_pos hblo]
      have hacc : ∀ id, (accept media s c index subtask rest task).accepted id = s.accepted id := by
        intro id
        rw [State.accepted, hinf]
        rfl
      have hera : task.subtasks.erase index = s.accepted c.task ++ rest.map Prod.fst := by
        rw [hlist, List.erase_append_right _ hnot, List.erase_cons_head]
      refine h.handOver (nextCall media s c subtask rest) (task.subtasks.erase index) hc htask
        accept_tasks.1 ?_ accept_tasks.2.1 accept_call accept_log accept_tasks.2.2 rfl hdone ?_
        List.erase_sublist hmem (fun id _ => hacc id) hfai
      · rw [accept_heap, if_pos hblo]
        rfl
      · rw [hacc, hera]
        rfl
    | false =>
      have hinf : (accept media s c index subtask rest task).inflight =
          s.inflight ++ [transferOf s c index subtask] := by
        rw [accept_inflight, hblo]
        rfl
      have hself : (accept media s c index subtask rest task).accepted c.task =
          s.accepted c.task ++ [index] := by
        rw [State.accepted, hinf]
        simp [State.accepted, transferOf]
      refine h.handOver (nextCall media s c subtask rest) task.subtasks hc htask
        accept_tasks.1 ?_ accept_tasks.2.1 accept_call accept_log accept_tasks.2.2 rfl hdone ?_
        (List.Sublist.refl _) hmem (fun id hid => ?_) hfai
      · rw [accept_heap, hblo]
        exact (Function.update_eq_self_iff.mpr htask.symm).symm
      · rw [hself, hlist, List.append_assoc]
        rfl
      simp [State.accepted, hinf, transferOf, Ne.symm hid]

/-! ### The end of a call -/

lemma getElem?_concat {log : List (Request × EfiStatus)} {request request' : Request}
    {status status' : EfiStatus} {k : ℕ}
    (h : (log ++ [(request, status)])[k]? = some (request', status')) :
    k < log.length ∧ log[k]? = some (request', status') ∨
      k = log.length ∧ request = request' ∧ status = status' := by
  grind

lemma TaskInv.finish (h : TaskInv s) (hstep : finish s = some s') : TaskInv s' := by
  obtain ⟨c, task, hc, htask, hrest, -, hinf, hcall, hlog, -, hfre, hcas⟩ :=
    finish_cases hstep
  have hpre := h.present c task hc htask
  have hlist : task.subtasks = s.accepted c.task := by
    rw [h.subtasks c.task task htask, State.waiting, hc]
    simp [hrest]
  -- a call that failed has no subtask left, and its token was not signalled
  have hfai : c.status.isError = true → task.subtasks = [] ∧
      task.token = some s.log.length := by
    intro herr
    have hblo := (h.failed c hc herr).2
    have hno : ¬∃ st ∈ c.done, st.blocking = false := by
      grind
    refine ⟨?_, hpre.resolve_right fun hnone => hno hnone.2.2⟩
    rw [hlist, State.accepted]
    simp only [List.map_eq_nil_iff, List.filter_eq_nil_iff, decide_eq_true_eq]
    exact fun t ht heq => hno (h.handed c hc t ht heq)
  have hwai : ∀ id, s'.accepted id ++ s'.waiting id = s.accepted id := by
    intro id
    rw [State.waiting, hcall, State.accepted, hinf, List.append_nil]
    rfl
  have hsub : ∀ id task', s.heap id = some task' → task'.subtasks = s.accepted id := by
    intro id task' hid
    rw [h.subtasks id task' hid, State.waiting, hc]
    simp [hrest]
  have hlen : s'.log.length = s.log.length + 1 := by rw [hlog]; simp
  rcases hcas with ⟨hemp, hque, hheap, hsig⟩ | ⟨hne, hque, hheap, hsig⟩
  · -- only the token of this request may be signalled
    have hcnt : ∀ k, s'.signalled.count k = s.signalled.count k +
        if k = s.log.length ∧ c.status.isError = false ∧ task.token.isSome then 1 else 0 := by
      intro k
      rw [hsig, List.count_append]
      rcases hpre with htok | ⟨-, hnone, -⟩
      · cases c.status.isError with
        | true => simp
        | false =>
          grind
      · simp [hnone]
    have hsome : ∀ id task', s'.heap id = some task' ↔
        id ≠ c.task ∧ s.heap id = some task' := by
      intro id task'
      rw [hheap]
      by_cases hid : id = c.task
      · subst hid
        simp
      · simp [hid]
    have hlive : ∀ id, (s'.heap id).isSome ↔ id ≠ c.task ∧ (s.heap id).isSome := by
      simp [Option.isSome_iff_exists, hsome, exists_and_left]
    have hheld : ∀ id task' k, s'.Holds id task' k → s.Holds id task' k ∧ k < s.log.length := by
      rintro id task' k ⟨hid, hk⟩
      obtain ⟨hne, hid⟩ := (hsome id task').mp hid
      refine ⟨⟨hid, hk⟩, (h.token id task' k ⟨hid, hk⟩).2.resolve_right ?_⟩
      grind
    refine ⟨fun id => ?_, hque ▸ h.queueNodup.erase _, fun id hid => ?_, fun id task' hid => ?_,
      fun id task' hid => h.nodup id task' ((hsome id task').mp hid).2, fun t ht => ?_,
      fun c' hc' => ?_, fun id task' k hk => ?_, fun id id' task' task'' k hk hk' => ?_,
      fun k request status hlog' => ?_, fun c' task' hc' => ?_, fun k hk _ => ?_,
      fun c' hc' => ?_, fun c' hc' => ?_⟩
    · rw [hque, hlive, h.queueNodup.mem_erase_iff, h.queue]
    · rw [hfre]
      exact h.fresh id ((hlive id).mp hid).2
    · grind
    · rw [hinf] at ht
      refine (hlive t.task).mpr ⟨fun heq => ?_, h.inflight t ht⟩
      grind [State.accepted, List.map_eq_nil_iff, List.filter_eq_nil_iff]
    · rw [hcall] at hc'
      cases hc'
    · obtain ⟨hk, hlt⟩ := hheld id task' k hk
      rw [hcnt, hlen, if_neg fun hif => by omega]
      exact ⟨(h.token id task' k hk).1, Or.inl (by omega)⟩
    · exact h.unique id id' task' task'' k (hheld id task' k hk).1 (hheld id' task'' k hk').1
    · rw [hlog] at hlog'
      rcases getElem?_concat hlog' with ⟨hlt, hlog'⟩ | ⟨rfl, -, rfl⟩
      · rw [hcnt, if_neg fun hif => by omega]
        obtain ⟨herr, hok⟩ := h.past k request status hlog'
        refine ⟨fun he => ⟨(herr he).1, fun id task' hk => ?_⟩, fun he => (hok he).imp_right ?_⟩
        · exact (herr he).2 id task' (hheld id task' k hk).1
        · rintro ⟨id, task', hk, hne⟩
          refine ⟨id, task', ⟨(hsome id task').mpr ⟨?_, hk.1⟩, hk.2⟩, hne⟩
          rintro rfl
          have := Option.some.inj (htask.symm.trans hk.1)
          exact hne (this ▸ hemp)
      · rw [hcnt]
        refine ⟨fun herr => ⟨?_, fun id task' hk => ?_⟩, fun hok => Or.inl ?_⟩
        · rw [if_neg fun hif => by simp [herr] at hif]
          exact (h.token c.task task _ ⟨htask, (hfai herr).2⟩).1
        · exact Nat.lt_irrefl _ (hheld id task' _ hk).2
        · rcases hpre with htok | ⟨hone, hnone, -⟩
          · rw [(h.token c.task task _ ⟨htask, htok⟩).1, if_pos ⟨rfl, hok, by simp [htok]⟩]
          · rw [hone, if_neg (by simp [hnone])]
    · rw [hcall] at hc'
      cases hc'
    · rw [hlen] at hk
      rw [hcnt, if_neg fun hif => by omega]
      exact h.future k (by omega) fun heq => by omega
    · rw [hcall] at hc'
      cases hc'
    · rw [hcall] at hc'
      cases hc'
  · have hok : c.status.isError = false := by
      grind
    refine ⟨fun id => by rw [hque, hheap]; exact h.queue id, hque ▸ h.queueNodup,
      fun id hid => by rw [hfre]; exact h.fresh id (hheap ▸ hid), fun id task' hid => ?_,
      fun id task' hid => h.nodup id task' (hheap ▸ hid), fun t ht => ?_, fun c' hc' => ?_,
      fun id task' k hk => ?_, fun id id' task' task'' k hk hk' => ?_,
      fun k request status hlog' => ?_, fun c' task' hc' => ?_, fun k hk _ => ?_,
      fun c' hc' => ?_, fun c' hc' => ?_⟩
    · rw [hwai]
      exact hsub id task' (hheap ▸ hid)
    · rw [hheap]
      exact h.inflight t (hinf ▸ ht)
    · rw [hcall] at hc'
      cases hc'
    · have hk' : s.Holds id task' k := ⟨hheap ▸ hk.1, hk.2⟩
      rw [hsig, hlen]
      refine ⟨(h.token id task' k hk').1, Or.inl ?_⟩
      rcases (h.token id task' k hk').2 with hlt | ⟨-, -, -, heq⟩ <;> omega
    · exact h.unique id id' task' task'' k ⟨hheap ▸ hk.1, hk.2⟩ ⟨hheap ▸ hk'.1, hk'.2⟩
    · have hhol : ∀ id task' k, s'.Holds id task' k ↔ s.Holds id task' k := by
        intro id task' k
        rw [State.Holds, State.Holds, hheap]
      rw [hlog] at hlog'
      rw [hsig]
      simp only [hhol]
      rcases getElem?_concat hlog' with ⟨-, hlog'⟩ | ⟨rfl, -, rfl⟩
      · exact h.past k request status hlog'
      · refine ⟨fun herr => ?_, fun _ => ?_⟩
        · rw [hok] at herr
          cases herr
        · rcases hpre with htok | ⟨hone, -, -⟩
          · exact Or.inr ⟨c.task, task, ⟨htask, htok⟩, hne⟩
          · exact Or.inl hone
    · rw [hcall] at hc'
      cases hc'
    · rw [hlen] at hk
      rw [hsig]
      exact h.future k (by omega) fun heq => by omega
    · rw [hcall] at hc'
      cases hc'
    · rw [hcall] at hc'
      cases hc'

/-! ### Completions -/

lemma TaskInv.complete {position : ℕ} {status : EfiStatus} (h : TaskInv s)
    (hstep : complete media s position status = some s') : TaskInv s' := by
  obtain ⟨transfer, task, hpos, htask, -, hinf, hcall, hlog, -, hque, hfre, hcas⟩ :=
    complete_cases hstep
  have hmem : transfer ∈ s.inflight := List.mem_of_getElem? hpos
  have hfil : (fun t : Transfer => decide (t.task = transfer.task)) transfer = true := by simp
  -- the token stays with the task, or is taken away and signalled
  obtain ⟨token, hheap, hcnt, hsign, hnone⟩ : ∃ token,
      s'.heap = Function.update s.heap transfer.task
        (some ⟨token, task.subtasks.erase transfer.index⟩) ∧
      (∀ k, task.token ≠ some k → s'.signalled.count k = s.signalled.count k) ∧
      (∀ k, task.token = some k → s'.signalled.count k = 1 ∧ token = none ∨
        s'.signalled.count k = 0 ∧ token = some k ∧ task.subtasks.erase transfer.index ≠ []) ∧
      (task.token = none → token = none) := by
    have hzero : ∀ k, task.token = some k → s.signalled.count k = 0 :=
      fun k hk => (h.token transfer.task task k ⟨htask, hk⟩).1
    rcases hcas with ⟨-, hheap, hsig⟩ | ⟨hne, hheap, hsig⟩
    · refine ⟨none, hheap, fun k hk => ?_, fun k hk => Or.inl ⟨?_, rfl⟩, fun _ => rfl⟩
      · rw [hsig, List.count_append, Nat.add_eq_left, List.count_eq_zero]
        simpa using hk
      · rw [hsig, List.count_append, hzero k hk, hk]
        simp
    · refine ⟨task.token, hheap, fun k _ => by rw [hsig], fun k hk => Or.inr ⟨?_, hk, hne⟩,
        fun hnone => hnone⟩
      rw [hsig]
      exact hzero k hk
  have hsome : ∀ id task', s'.heap id = some task' ↔
      id = transfer.task ∧ ⟨token, task.subtasks.erase transfer.index⟩ = task' ∨
        id ≠ transfer.task ∧ s.heap id = some task' := by
    intro id task'
    rw [hheap, update_eq_some]
  have hlive : ∀ id, (s'.heap id).isSome ↔ (s.heap id).isSome := by
    intro id
    rw [hheap]
    grind
  have hkept : ∀ k, token = some k → task.token = some k := by
    intro k hk
    cases htok : task.token with
    | none => rw [hnone htok] at hk; cases hk
    | some k' =>
      grind
  have hheld : ∀ id task' k, s'.Holds id task' k → ∃ task'', s.Holds id task'' k := by
    rintro id task' k ⟨hid, hk⟩
    rcases (hsome id task').mp hid with ⟨rfl, rfl⟩ | ⟨-, hid⟩
    · exact ⟨task, htask, hkept k hk⟩
    · exact ⟨task', hid, hk⟩
  have hlist := h.subtasks transfer.task task htask
  have hnod := h.nodup transfer.task task htask
  have hacc : transfer.index ∈ s.accepted transfer.task :=
    List.mem_map_of_mem (List.mem_filter.mpr ⟨hmem, hfil⟩)
  have hwai : ∀ id, s'.waiting id = s.waiting id := by
    intro id
    rw [State.waiting, State.waiting, hcall]
  refine ⟨fun id => by rw [hque, hlive]; exact h.queue id, hque ▸ h.queueNodup,
    fun id hid => by rw [hfre]; exact h.fresh id ((hlive id).mp hid), fun id task' hid => ?_,
    fun id task' hid => ?_, fun t ht => ?_, fun c hc => ?_, fun id task' k hk => ?_,
    fun id id' task' task'' k hk hk' => ?_, fun k request status hlog' => ?_,
    fun c task' hc hid => ?_, fun k hk hidle => ?_, fun c hc t ht heq => ?_, fun c hc => ?_⟩
  · rw [hwai, State.accepted, hinf]
    rcases (hsome id task').mp hid with ⟨rfl, rfl⟩ | ⟨hne, hid⟩
    · rw [hlist] at hnod
      rw [map_filter_eraseIdx hpos hfil (List.nodup_append.mp hnod).1]
      exact (congrArg (List.erase · transfer.index) hlist).trans (List.erase_append_left _ hacc)
    · rw [filter_eraseIdx_of_neg hpos (by simpa using Ne.symm hne)]
      exact h.subtasks id task' hid
  · rcases (hsome id task').mp hid with ⟨rfl, rfl⟩ | ⟨-, hid⟩
    · exact hnod.erase _
    · exact h.nodup id task' hid
  · rw [hlive]
    exact h.inflight t (List.mem_of_mem_eraseIdx (hinf ▸ ht))
  · rw [hlive]
    exact h.callTask c (hcall ▸ hc)
  · obtain ⟨task'', hold⟩ := hheld id task' k hk
    rw [hlog, hcall]
    refine ⟨?_, (h.token id task'' k hold).2⟩
    by_cases htok : task.token = some k
    · rcases hsign k htok with ⟨-, htak⟩ | ⟨hzero, -⟩
      · have hid : id = transfer.task :=
          h.unique id transfer.task task'' task k hold ⟨htask, htok⟩
        rcases (hsome id task').mp hk.1 with ⟨-, rfl⟩ | ⟨hne, -⟩
        · have := hk.2
          rw [htak] at this
          cases this
        · exact absurd hid hne
      · exact hzero
    · rw [hcnt k htok]
      exact (h.token id task'' k hold).1
  · obtain ⟨t, ht⟩ := hheld id task' k hk
    obtain ⟨t', ht'⟩ := hheld id' task'' k hk'
    exact h.unique id id' t t' k ht ht'
  · rw [hlog] at hlog'
    obtain ⟨herr, hok⟩ := h.past k request status hlog'
    refine ⟨fun he => ⟨?_, fun id task' hk => ?_⟩, fun he => ?_⟩
    · rw [hcnt k fun htok => (herr he).2 transfer.task task ⟨htask, htok⟩]
      exact (herr he).1
    · grind
    · by_cases htok : task.token = some k
      · rcases hsign k htok with ⟨hone, -⟩ | ⟨-, hleft, hne⟩
        · exact Or.inl hone
        · exact Or.inr ⟨transfer.task, _, ⟨(hsome _ _).mpr (Or.inl ⟨rfl, rfl⟩), hleft⟩, hne⟩
      · rw [hcnt k htok]
        refine (hok he).imp_right ?_
        rintro ⟨id, task', hk, hne⟩
        refine ⟨id, task', ⟨(hsome id task').mpr (Or.inr ⟨?_, hk.1⟩), hk.2⟩, hne⟩
        rintro rfl
        have heq : task = task' := Option.some.inj (htask.symm.trans hk.1)
        exact htok (heq ▸ hk.2)
  · rw [hcall] at hc
    rw [hlog]
    rcases (hsome c.task task').mp hid with ⟨heq, rfl⟩ | ⟨hne, hid⟩
    · rcases h.present c task hc (heq ▸ htask) with htok | ⟨hone, hnon', hdone⟩
      · rcases hsign _ htok with ⟨hone, htak⟩ | ⟨-, hleft, -⟩
        · exact Or.inr ⟨hone, htak, h.handed c hc transfer hmem heq.symm⟩
        · exact Or.inl hleft
      grind
    · rw [hcnt]
      · exact h.present c task' hc hid
      · intro htok
        rcases (h.token transfer.task task _ ⟨htask, htok⟩).2 with hlt | ⟨c', hc', heq, -⟩
        · exact Nat.lt_irrefl _ hlt
        · rw [hc] at hc'
          exact hne (Option.some.inj hc' ▸ heq)
  · rw [hlog] at hk hidle
    rw [hcall] at hidle
    rw [hcnt]
    · exact h.future k hk hidle
    · intro htok
      rcases (h.token transfer.task task _ ⟨htask, htok⟩).2 with hlt | ⟨c', hc', -, heq⟩
      · omega
      · rw [hidle heq] at hc'
        cases hc'
  · exact h.handed c (hcall ▸ hc) t (List.mem_of_mem_eraseIdx (hinf ▸ ht)) heq
  · exact h.failed c (hcall ▸ hc)

lemma TaskInv.step {e : Event} (h : TaskInv s) (hcar : Careful media s e)
    (hstep : step media s e = some s') : TaskInv s' := by
  cases e with
  | call request taskAllocated answers =>
    cases hcall : s.call with
    | none =>
      simp only [DiskIo.step, hcall, Option.isSome_none, Bool.false_eq_true, if_false] at hstep
      exact h.begin hcall hcar hstep
    | some c => simp [DiskIo.step, hcall] at hstep
  | submit status => exact h.submit hcar hstep
  | finish => exact h.finish hstep
  | complete position status => exact h.complete hstep

end Edk2.DiskIo
