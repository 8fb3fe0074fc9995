import Edk2.DiskIo.Tokens

/-!
# The contents of the disk

What the device has accepted counts as written. With this view of the disk every subtask of a write
does at once what it would do if it were blocking, as long as no outstanding write is in a block of
the request.
-/

namespace Edk2.DiskIo

open Overlay

variable {media : Media} {disk : ℕ → Byte} {s s' : State}

/-- A disk after a transfer. -/
def Transfer.apply (media : Media) (d : ℕ → Byte) (t : Transfer) : ℕ → Byte :=
  if t.subtask.write then overlay d (t.subtask.start media) (t.subtask.size media) t.source else d

/-- The disk after everything that was accepted. -/
def settled (media : Media) (d : ℕ → Byte) (inflight : List Transfer) : ℕ → Byte :=
  inflight.foldl (Transfer.apply media) d

/-- The two transfers do not write the same byte. -/
def Separate (media : Media) (t t' : Transfer) : Prop :=
  t.subtask.write = true → t'.subtask.write = true →
    ∀ a, t.subtask.Touches media a → ¬t'.subtask.Touches media a

lemma Separate.symm {t t' : Transfer} (h : Separate media t t') : Separate media t' t :=
  fun ht' ht a ha' ha => h ht ht' a ha ha'

lemma apply_comm {t t' : Transfer} (h : Separate media t t') (d : ℕ → Byte) :
    Transfer.apply media (Transfer.apply media d t) t' =
      Transfer.apply media (Transfer.apply media d t') t := by
  unfold Transfer.apply
  split_ifs with hwri hwri'
  · exact overlay_comm (h hwri' hwri)
  · rfl
  · rfl
  · rfl

lemma settled_apply {t : Transfer} {inflight : List Transfer}
    (h : ∀ t' ∈ inflight, Separate media t t') (d : ℕ → Byte) :
    settled media (Transfer.apply media d t) inflight =
      Transfer.apply media (settled media d inflight) t := by
  induction inflight generalizing d with
  | nil => rfl
  | cons t' rest ih =>
    grind [apply_comm, settled]

lemma settled_append (d : ℕ → Byte) (inflight : List Transfer) (t : Transfer) :
    settled media d (inflight ++ [t]) = Transfer.apply media (settled media d inflight) t := by
  unfold settled
  rw [List.foldl_append]
  rfl

lemma settled_eraseIdx {inflight : List Transfer} {position : ℕ} {t : Transfer}
    (hmem : inflight[position]? = some t) (h : inflight.Pairwise (Separate media)) (d : ℕ → Byte) :
    settled media (Transfer.apply media d t) (inflight.eraseIdx position) =
      settled media d inflight := by
  induction inflight generalizing position d with
  | nil => simp at hmem
  | cons t' rest ih =>
    cases position with
    | zero =>
      simp only [List.getElem?_cons_zero, Option.some.injEq] at hmem
      rw [hmem]
      rfl
    | succ position =>
      rw [List.getElem?_cons_succ] at hmem
      obtain ⟨hfst, h⟩ := List.pairwise_cons.mp h
      have hrest := ih hmem h (Transfer.apply media d t')
      have hcomm := apply_comm (hfst t (List.mem_of_getElem? hmem)) d
      grind [settled]

lemma settled_of_not_touched {inflight : List Transfer} {a : ℕ}
    (h : ∀ t ∈ inflight, t.subtask.write = true → ¬t.subtask.Touches media a) (d : ℕ → Byte) :
    settled media d inflight a = d a := by
  induction inflight generalizing d with
  | nil => rfl
  | cons t rest ih =>
    have hrest := ih (fun t' ht' => h t' (List.mem_cons_of_mem _ ht')) (Transfer.apply media d t)
    unfold settled at hrest ⊢
    rw [List.foldl_cons, hrest]
    unfold Transfer.apply
    split_ifs with hwri
    · exact overlay_of_not_covers (h t List.mem_cons_self hwri)
    · rfl

/-- The last write that covers a byte, of those whose calls succeeded. -/
def latest (disk : ℕ → Byte) (log : List (Request × EfiStatus)) : ℕ → Byte :=
  log.foldl (fun d x => if x.1.write && !x.2.isError then
    overlay d x.1.offset x.1.bufferSize x.1.data else d) disk

lemma latest_append (log : List (Request × EfiStatus)) (request : Request) (status : EfiStatus) :
    latest disk (log ++ [(request, status)]) = if request.write && !status.isError then
      overlay (latest disk log) request.offset request.bufferSize request.data
      else latest disk log := by
  unfold latest
  rw [List.foldl_append]
  rfl

/-- A request in the loop. The subtasks that are left would finish a write, and what was handed
over already has not changed the disk if there was no write among it. -/
structure Active (media : Media) (disk : ℕ → Byte) (s : State) (c : Call) : Prop where
  failed : c.status.isError = true → c.rest = []
  direction : ∀ x ∈ c.rest, x.2.write = true → c.request.write = true
  clear : c.request.write = true → ∀ x ∈ c.rest, ∀ t ∈ s.inflight, t.subtask.write = true →
    ∀ a, x.2.Touches media a → ¬t.subtask.Touches media a
  apart : (c.rest.map Prod.snd).Pairwise fun st st' => st.write = true → st.blocking = false →
    ∀ a, st.Touches media a → ¬st'.Touches media a
  running : s.deviceError = false → c.status.isError = false → c.request.write = true →
    ((c.rest.map Prod.snd).foldl (perform media) (c, settled media s.disk s.inflight)).2 =
      latest disk (s.log ++ [(c.request, .success)])
  untouched : s.deviceError = false → (c.request.write = false ∨ c.status.isError = true ∨
    ∀ st ∈ c.done, st.write = false) → settled media s.disk s.inflight = latest disk s.log

/-- The disk is what the requests made of it. -/
structure DiskInv (media : Media) (disk : ℕ → Byte) (s : State) : Prop where
  separate : s.inflight.Pairwise (Separate media)
  idle : s.call = none → s.deviceError = false →
    settled media s.disk s.inflight = latest disk s.log
  active : ∀ c, s.call = some c → Active media disk s c

lemma diskInv_initial : DiskInv media disk (State.initial disk) where
  separate := List.Pairwise.nil
  idle _ _ := rfl
  active c hc := by cases hc

lemma perform_congr {c c' : Call} (hreq : c.request = c'.request) (hwork : c.work = c'.work)
    (d : ℕ → Byte) (subtask : Subtask) :
    (perform media (c, d) subtask).2 = (perform media (c', d) subtask).2 ∧
      (perform media (c, d) subtask).1.request = (perform media (c', d) subtask).1.request ∧
      (perform media (c, d) subtask).1.work = (perform media (c', d) subtask).1.work := by
  cases c
  cases c'
  dsimp only at hreq hwork
  subst hreq hwork
  unfold perform
  split_ifs <;> exact ⟨rfl, rfl, rfl⟩

lemma foldl_perform_congr {c c' : Call} (hreq : c.request = c'.request)
    (hwork : c.work = c'.work) (d : ℕ → Byte) (l : List Subtask) :
    (l.foldl (perform media) (c, d)).2 = (l.foldl (perform media) (c', d)).2 := by
  induction l generalizing c c' d with
  | nil => rfl
  | cons subtask rest ih =>
    obtain ⟨hdisk, hreq', hwor'⟩ := perform_congr hreq hwork d subtask
    have hrest := ih hreq' hwor' (perform media (c, d) subtask).2
    rw [List.foldl_cons, List.foldl_cons]
    rw [hdisk] at hrest
    rw [← hrest, ← hdisk]

lemma read_congr (c : Call) {subtask : Subtask} {f g : ℕ → Byte}
    (h : ∀ i < subtask.size media, f i = g i) :
    c.read media subtask f = c.read media subtask g := by
  have hove : ∀ d : ℕ → Byte,
      overlay d 0 (subtask.size media) f = overlay d 0 (subtask.size media) g := by
    intro d
    funext i
    by_cases hi : Covers 0 (subtask.size media) i
    · rw [overlay_of_covers hi, overlay_of_covers hi]
      apply h
      unfold Covers at hi
      omega
    · rw [overlay_of_not_covers hi, overlay_of_not_covers hi]
  unfold Call.read
  simp only [hove]

section Accept

variable {c : Call} {index : ℕ} {subtask : Subtask} {rest : List (ℕ × Subtask)} {task : Task}

lemma DiskInv.separate_of_rest (h : DiskInv media disk s) (hc : s.call = some c)
    (hrest : c.rest = (index, subtask) :: rest) :
    ∀ t ∈ s.inflight, Separate media (transferOf s c index subtask) t := by
  intro t ht hwri hwri' a ha
  have hact := h.active c hc
  have hmem : (index, subtask) ∈ c.rest := by rw [hrest]; exact List.mem_cons_self
  exact hact.clear (hact.direction _ hmem hwri) _ hmem t ht hwri' a ha

/-- A turn of the loop does to the disk, as it will be, what the subtask would do if it were
blocking. -/
lemma settled_accept (task : Task) (h : DiskInv media disk s) (hc : s.call = some c)
    (hrest : c.rest = (index, subtask) :: rest) :
    settled media (accept media s c index subtask rest task).disk
        (accept media s c index subtask rest task).inflight =
      Transfer.apply media (settled media s.disk s.inflight) (transferOf s c index subtask) := by
  have hsep := h.separate_of_rest hc hrest
  unfold accept
  cases hblo : subtask.blocking with
  | true =>
    simp only [if_true]
    rw [← settled_apply hsep]
    rfl
  | false =>
    simp only [Bool.false_eq_true, if_false]
    exact settled_append _ _ _

/-- For a subtask of a write, the working buffers are those of the subtask carried out on the disk
as it will be. -/
lemma perform_accept (h : DiskInv media disk s) (hc : s.call = some c)
    (hrest : c.rest = (index, subtask) :: rest) (hwri : c.request.write = true) :
    (perform media (c, settled media s.disk s.inflight) subtask).2 =
        Transfer.apply media (settled media s.disk s.inflight) (transferOf s c index subtask) ∧
      (perform media (c, settled media s.disk s.inflight) subtask).1.request = c.request ∧
      (perform media (c, settled media s.disk s.inflight) subtask).1.work =
        (nextCall media s c subtask rest).work := by
  have hcle := (h.active c hc).clear hwri (index, subtask) (by rw [hrest]; exact List.mem_cons_self)
  unfold perform Transfer.apply nextCall transferOf
  dsimp only
  split_ifs with hst hblo
  · exact ⟨rfl, rfl, rfl⟩
  · refine ⟨rfl, rfl, read_congr c fun i hi => ?_⟩
    apply settled_of_not_touched
    intro t ht htw
    apply hcle t ht htw
    exact ⟨Nat.le_add_right _ _, Nat.add_lt_add_left hi _⟩
  · exact ⟨rfl, rfl, rfl⟩

lemma DiskInv.accept (h : DiskInv media disk s) (hc : s.call = some c)
    (hrest : c.rest = (index, subtask) :: rest) :
    DiskInv media disk (accept media s c index subtask rest task) := by
  have hact := h.active c hc
  have hmem : (index, subtask) ∈ c.rest := by rw [hrest]; exact List.mem_cons_self
  have hsub : ∀ x ∈ rest, x ∈ c.rest := fun x hx => by rw [hrest]; exact List.mem_cons_of_mem _ hx
  have hstat : c.status.isError = false := by
    by_contra herr
    rw [hact.failed (by simpa using herr)] at hrest
    cases hrest
  have hset := settled_accept task h hc hrest
  have hpai := hact.apart
  rw [hrest, List.map_cons, List.pairwise_cons] at hpai
  refine ⟨?_, fun hnone => ?_, fun c' hc' => ?_⟩
  · rw [accept_inflight]
    split_ifs
    · exact h.separate
    · refine List.pairwise_append.mpr
        ⟨h.separate, List.pairwise_singleton _ _, fun t ht t' ht' => ?_⟩
      rw [List.mem_singleton.mp ht']
      exact (h.separate_of_rest hc hrest t ht).symm
  · rw [accept_call] at hnone
    cases hnone
  · rw [accept_call] at hc'
    obtain rfl := Option.some.inj hc'
    refine ⟨fun herr => ?_, fun x hx => hact.direction x (hsub x hx), ?_, hpai.2, ?_, ?_⟩
    · rw [show (nextCall media s c subtask rest).status = c.status from rfl, hstat] at herr
      cases herr
    · intro hwri x hx t ht htw a ha
      rcases mem_accept_inflight ht with ht | ⟨hblo, rfl⟩
      · exact hact.clear hwri x (hsub x hx) t ht htw a ha
      · exact fun ha' => hpai.1 x.2 (List.mem_map_of_mem hx) htw hblo a ha' ha
    · intro herr _ hwri
      rw [accept_deviceError] at herr
      obtain ⟨hdisk, hreq, hwork⟩ := perform_accept h hc hrest hwri
      have hrun := hact.running herr hstat hwri
      rw [hrest, List.map_cons, List.foldl_cons] at hrun
      rw [accept_log, hset, ← hdisk]
      refine Eq.trans (foldl_perform_congr ?_ hwork.symm _ _) hrun
      exact hreq.symm
    · intro herr hcas
      rw [accept_deviceError] at herr
      have hread : subtask.write = false ∧ (c.request.write = false ∨ c.status.isError = true ∨
          ∀ st ∈ c.done, st.write = false) := by
        rcases hcas with hread | herr' | hdone
        · refine ⟨?_, Or.inl hread⟩
          by_contra hwri
          rw [show (nextCall media s c subtask rest).request = c.request from rfl,
            hact.direction _ hmem (by simpa using hwri)] at hread
          cases hread
        · rw [show (nextCall media s c subtask rest).status = c.status from rfl, hstat] at herr'
          cases herr'
        · exact ⟨hdone subtask (List.mem_append_right _ (List.mem_singleton_self _)),
            Or.inr (Or.inr fun st hst => hdone st (List.mem_append_left _ hst))⟩
      rw [accept_log, hset, Transfer.apply, transferOf]
      simp only [hread.1, Bool.false_eq_true, if_false]
      exact hact.untouched herr hread.2

end Accept

/-- The media is one that can be read. -/
structure Media.Valid (media : Media) : Prop where
  blockSize : 0 < media.blockSize
  dataBufferBlockNum : 0 < media.dataBufferBlockNum

lemma DiskInv.begin {request : Request} {taskAllocated : Bool} {answers : List Bool}
    (hmed : media.Valid) (h : DiskInv media disk s) (hidle : s.call = none)
    (hcar : Careful media s (.call request taskAllocated answers))
    (hstep : begin media s request taskAllocated answers = some s') : DiskInv media disk s' := by
  have herr : ∀ log, latest disk (log ++ [(request, .outOfResources)]) = latest disk log := by
    intro log
    rw [latest_append]
    simp [EfiStatus.isError]
  obtain ⟨queue, heap, -, ⟨-, rfl⟩ | ⟨-, -, rfl⟩ |
    ⟨subtasks, answers', hall, hcre, rfl⟩⟩ :=
    begin_cases hstep
  · exact ⟨h.separate, fun _ hdev => (h.idle hidle hdev).trans (herr _).symm,
      fun c hc => by rw [hidle] at hc; cases hc⟩
  · exact ⟨h.separate, fun _ hdev => (h.idle hidle hdev).trans (herr _).symm,
      fun c hc => by rw [hidle] at hc; cases hc⟩
  · have hpart := yields_createSubtaskList hmed.blockSize hmed.dataBufferBlockNum request
      answers subtasks answers' hcre
    have hmap : (subtasks.zipIdx.map fun x => (x.2, x.1)).map Prod.snd = subtasks := by
      rw [List.map_map]
      exact List.zipIdx_map_fst 0 subtasks
    have hmem : ∀ x ∈ subtasks.zipIdx.map fun x => (x.2, x.1), x.2 ∈ subtasks := by
      intro x hx
      rw [← hmap]
      exact List.mem_map_of_mem hx
    refine ⟨h.separate, fun hnone => (by cases hnone), fun c hc => ?_⟩
    obtain rfl := Option.some.inj hc
    refine ⟨fun herr => (by cases herr), fun x hx => hpart.direction x.2 (hmem x hx), ?_, ?_,
      ?_,
      fun hdev _ => h.idle hidle hdev⟩
    · intro hwri x hx t ht htw a ha ha'
      obtain ⟨b, hb, heq⟩ := hpart.within x.2 (hmem x hx) a ha
      exact (hcar hall).2 hwri t ht htw a b ha' hb heq
    · rw [hmap]
      exact hpart.apart
    · intro hdev _ hwri
      obtain ⟨c', d', hrun, -, hd'⟩ := hpart.effect hwri ⟨request, s.fresh, [],
        subtasks.zipIdx.map fun x => (x.2, x.1), fun _ _ => 0, .success⟩
        (settled media s.disk s.inflight) rfl
      have hwrit : (request.write && !EfiStatus.success.isError) = true := by
        rw [hwri]
        rfl
      rw [hmap, latest_append, if_pos hwrit, ← h.idle hidle hdev]
      refine (congrArg Prod.snd hrun).trans (funext fun a => ?_)
      by_cases ha : Covers request.offset request.bufferSize a
      · rw [overlay_of_covers ha]
        exact (hd' a).1 ha
      · rw [overlay_of_not_covers ha]
        exact (hd' a).2 ha

lemma DiskInv.submit {status : EfiStatus} (h : DiskInv media disk s)
    (hcar : Careful media s (.submit status)) (hstep : submit media s status = some s') :
    DiskInv media disk s' := by
  obtain ⟨c, task, index, subtask, rest, hc, -, hrest, ⟨herr, rfl⟩ | ⟨-, rfl⟩⟩ :=
    submit_cases hstep
  · have hact := h.active c hc
    refine ⟨h.separate, fun hnone => (by cases hnone), fun c' hc' => ?_⟩
    obtain rfl := Option.some.inj hc'
    refine ⟨fun _ => rfl, by simp, by simp, List.Pairwise.nil, fun _ hok => ?_, fun hdev _ => ?_⟩
    · rw [herr] at hok
      cases hok
    · exact hact.untouched hdev (Or.inr (Or.inr fun st hst => (hcar herr c hc st hst).2))
  · exact h.accept hc hrest

lemma DiskInv.finish (h : DiskInv media disk s) (hstep : finish s = some s') :
    DiskInv media disk s' := by
  obtain ⟨c, task, hc, -, hrest, hdisk, hinf, hcall, hlog, hdev, -⟩ := finish_cases hstep
  have hact := h.active c hc
  refine ⟨by rw [hinf]; exact h.separate, fun _ hok => ?_, fun c' hc' => ?_⟩
  · rw [hdev] at hok
    rw [hdisk, hinf, hlog]
    cases hst : c.status.isError with
    | true =>
      rw [latest_append, hst, hact.untouched hok (Or.inr (Or.inl hst))]
      simp
    | false =>
      have hsuc : c.status = .success := by
        simpa [EfiStatus.isError] using hst
      cases hwri : c.request.write with
      | true =>
        have hrun := hact.running hok hst hwri
        rw [hrest] at hrun
        rw [hsuc]
        exact hrun
      | false =>
        rw [latest_append, hwri, hact.untouched hok (Or.inl hwri)]
        simp
  · rw [hcall] at hc'
    cases hc'

lemma DiskInv.complete {position : ℕ} {status : EfiStatus} (h : DiskInv media disk s)
    (hstep : complete media s position status = some s') : DiskInv media disk s' := by
  obtain ⟨t, task, ht, -, hdisk, hinf, hcall, hlog, hdev, -⟩ := complete_cases hstep
  have hsub : ∀ t' ∈ s'.inflight, t' ∈ s.inflight := by
    rw [hinf]
    exact fun t' ht' => List.mem_of_mem_eraseIdx ht'
  have hset : s'.deviceError = false → s.deviceError = false ∧
      settled media s'.disk s'.inflight = settled media s.disk s.inflight := by
    intro hok
    rw [hdev, Bool.or_eq_false_iff, Bool.and_eq_false_iff] at hok
    refine ⟨hok.1, ?_⟩
    rw [hinf, ← settled_eraseIdx ht h.separate, hdisk]
    congr 1
    unfold Transfer.apply
    rcases hok.2 with hread | hst
    · simp [hread]
    · simp [hst]
  refine ⟨?_, fun hnone hok => ?_, fun c hc => ?_⟩
  · rw [hinf]
    exact h.separate.sublist (List.eraseIdx_sublist _ _)
  · obtain ⟨hok', heq⟩ := hset hok
    rw [heq, hlog]
    exact h.idle (hcall ▸ hnone) hok'
  · have hact := h.active c (hcall ▸ hc)
    refine ⟨hact.failed, hact.direction, ?_, hact.apart, fun hok hst hwri => ?_, fun hok hcas => ?_⟩
    · exact fun hwri x hx t ht => hact.clear hwri x hx t (hsub t ht)
    · obtain ⟨hok', heq⟩ := hset hok
      rw [heq, hlog]
      exact hact.running hok' hst hwri
    · obtain ⟨hok', heq⟩ := hset hok
      rw [heq, hlog]
      exact hact.untouched hok' hcas

lemma DiskInv.step {e : Event} (hmed : media.Valid) (h : DiskInv media disk s)
    (hcar : Careful media s e) (hstep : step media s e = some s') : DiskInv media disk s' := by
  cases e with
  | call request taskAllocated answers =>
    unfold DiskIo.step at hstep
    dsimp only at hstep
    split_ifs at hstep with hcall
    exact h.begin hmed (by simpa using hcall) hcar hstep
  | submit status => exact h.submit hcar hstep
  | finish => exact h.finish hstep
  | complete position status => exact h.complete hstep

end Edk2.DiskIo

/-!
## Whole runs

In a careful run no update is lost, the tokens are signalled as the calls promise, and the queue
holds tasks that are alive. Without care two writes to a block lose one of them: the second reads
the block before the first has changed it.
-/

namespace Edk2.DiskIo

variable {media : Media} {disk : ℕ → Byte} {s : State}

/-- The states of a run, one event after the other. -/
def run (media : Media) (s : State) (events : List Event) : Option State :=
  events.foldlM (step media) s

/-- The disk, the tokens and the queue. -/
structure Correct (disk : ℕ → Byte) (s : State) : Prop where
  /-- When everything is completed, each byte is what the last write of it made it. -/
  disk : s.call = none → s.inflight = [] → s.deviceError = false → s.disk = latest disk s.log
  signalled : s.call = none → s.inflight = [] → ∀ k request status,
    s.log[k]? = some (request, status) → status.isError = false → s.signalled.count k = 1
  once : ∀ k, s.signalled.count k ≤ 1
  failed : ∀ k request status, s.log[k]? = some (request, status) → status.isError = true →
    s.signalled.count k = 0
  queue : ∀ id ∈ s.taskQueue, (s.heap id).isSome

lemma TaskInv.count_le_one (h : TaskInv s) (k : ℕ) : s.signalled.count k ≤ 1 := by
  by_cases hlt : k < s.log.length
  · obtain ⟨herr, hok⟩ := h.past k s.log[k].1 s.log[k].2 (List.getElem?_eq_getElem hlt)
    cases hst : s.log[k].2.isError with
    | true => exact (herr hst).1.le.trans (Nat.zero_le 1)
    | false =>
      rcases hok hst with hone | ⟨id, task, hk, -⟩
      · exact hone.le
      · exact (h.token id task k hk).1.le.trans (Nat.zero_le 1)
  · by_cases hfut : k = s.log.length → s.call = none
    · exact (h.future k (Nat.le_of_not_lt hlt) hfut).le.trans (Nat.zero_le 1)
    · obtain ⟨rfl, hsome⟩ := Classical.not_imp.mp hfut
      obtain ⟨c, hc⟩ := Option.ne_none_iff_exists'.mp hsome
      obtain ⟨task, htask⟩ := Option.isSome_iff_exists.mp (h.callTask c hc)
      rcases h.present c task hc htask with htok | ⟨hone, -⟩
      · exact (h.token c.task task _ ⟨htask, htok⟩).1.le.trans (Nat.zero_le 1)
      · exact hone.le

lemma TaskInv.no_subtasks (h : TaskInv s) (hcall : s.call = none) (hinf : s.inflight = [])
    {id : ℕ} {task : Task} (htask : s.heap id = some task) : task.subtasks = [] := by
  rw [h.subtasks id task htask, State.accepted, State.waiting, hinf, hcall]
  rfl

lemma correct_of_inv (hdisk : DiskInv media disk s) (htask : TaskInv s) : Correct disk s := by
  constructor
  · intro hcall hinf herr
    have := hdisk.idle hcall herr
    rw [hinf] at this
    exact this
  · intro hcall hinf k request status hlog hok
    rcases (htask.past k request status hlog).2 hok with hone | ⟨id, task, hk, hne⟩
    · exact hone
    · exact absurd (htask.no_subtasks hcall hinf hk.1) hne
  · exact htask.count_le_one
  · exact fun k request status hlog herr => ((htask.past k request status hlog).1 herr).1
  · exact fun id hid => (htask.queue id).mp hid

/-- Nothing is lost in a careful run. -/
theorem correct_of_reaches (hmedia : media.Valid) (h : Reaches media disk s) : Correct disk s := by
  have hinv : DiskInv media disk s ∧ TaskInv s := by
    apply h.invariant (P := fun s => DiskInv media disk s ∧ TaskInv s)
    · exact ⟨diskInv_initial, taskInv_initial disk⟩
    · intro s s' e hinv hcareful hstep
      exact ⟨hinv.1.step hmedia hcareful hstep, hinv.2.step hcareful hstep⟩
  exact correct_of_inv hinv.1 hinv.2

/-- A disk with blocks of 512 bytes. -/
def usualMedia : Media := ⟨512, 64⟩

/-- A write of one byte. -/
def writeByte (offset : ℕ) (value : Byte) : Request :=
  ⟨true, offset, 1, fun _ => value, fun _ => true⟩

/-- One write, from the call to the completion. -/
theorem correct_of_reaches_writeByte : ∃ s, Reaches usualMedia (fun _ => 0) s ∧
    Correct (fun _ => 0) s ∧ s.call = none ∧ s.inflight = [] ∧ s.signalled = [0] ∧
    s.disk 1 = 7 := by
  have h₀ : Reaches usualMedia (fun _ => 0) (State.initial fun _ => 0) := Reaches.initial
  have h₁ := h₀.next (e := .call (writeByte 1 7) true [])
    (fun _ => ⟨rfl, fun _ t ht => by cases ht⟩) rfl
  have h₂ := h₁.next (e := .submit .success) (fun h => by cases h) rfl
  have h₃ := h₂.next (e := .submit .success) (fun h => by cases h) rfl
  have h₄ := h₃.next (e := .finish) trivial rfl
  have h₅ := h₄.next (e := .complete 0 .success) trivial rfl
  exact ⟨_, h₅, correct_of_reaches ⟨by decide, by decide⟩ h₅, rfl, rfl, rfl, rfl⟩

/-- Two writes of one block, the second made while the first is outstanding. -/
def twoWrites : List Event :=
  [.call (writeByte 1 7) true [], .submit .success, .submit .success, .finish,
    .call (writeByte 2 9) true [], .submit .success, .submit .success, .finish,
    .complete 0 .success, .complete 0 .success]

/-- The byte of the first write is lost. -/
theorem not_correct_twoWrites : ¬∀ (media : Media) (disk : ℕ → Byte) (events : List Event)
    (s : State), media.Valid → run media (State.initial disk) events = some s →
    Correct disk s := by
  intro hall
  have hcorrect := hall usualMedia (fun _ => 0) twoWrites _ ⟨by decide, by decide⟩ rfl
  have hbyte := congrFun (hcorrect.disk rfl rfl rfl) 1
  exact absurd hbyte (by decide)

end Edk2.DiskIo
