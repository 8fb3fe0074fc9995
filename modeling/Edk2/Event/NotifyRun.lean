import Edk2.Event.NotifyStack

/-!
# Runs of the event services

Every call keeps the invariant, and so does every notification function that does not return above
the priority at which it was entered.
-/

namespace Edk2.Event

variable {s s' : State} {rest : List Frame} {f : Frame} {t p : Tpl} {x : EventId} {e : IEvent}

lemma client_of_running (h : s.running = true) : Client s.stack := by
  intro f rest hsta
  grind [State.running]

lemma Inv.at_client (h : Inv s) (hclient : Client s.stack) : Deep s.stack ∧ s.Clean s.tpl := by
  cases h.stacked with
  | steady hdeep hcle =>
    refine ⟨hdeep, hcle fun t rest hsta => ?_⟩
    obtain ⟨y, t', hy⟩ := hclient _ _ hsta
    cases hy
  | brief f rest hsta hbri =>
    obtain ⟨y, t', rfl⟩ := hclient _ _ hsta
    exact hbri.elim
  | returning t f rest hsta =>
    obtain ⟨y, t', hy⟩ := hclient _ _ hsta
    cases hy

lemma Inv.at_steady (h : Inv s) (hsta : s.stack = f :: rest) (hf : f.brief = false)
    (hres : ∀ t, f ≠ .restore t) : Deep (f :: rest) ∧ s.Clean s.tpl ∧
      ∀ p first, f = .dispatch p first → s.tpl ≤ p := by
  cases h.stacked with
  | steady hdeep hcle htop =>
    grind
  | brief g rest' hsta' hbri =>
    rw [hsta] at hsta'
    obtain ⟨rfl, rfl⟩ := List.cons.inj hsta'
    cases f <;> first | exact hbri.elim | cases hf
  | returning t g rest' hsta' =>
    grind

lemma Inv.at_brief (h : Inv s) (hsta : s.stack = f :: rest) (hf : f.brief = true) :
    Brief rest s.tpl f ∧ s.Clean s.tpl ∧
      Queues s (fun x => f = .closeFree x) (fun x => f = .signalList x) ∧
      Held s (fun x => f = .closeFree x) f := by
  have hheld := h.held f (hsta ▸ List.mem_cons_self)
  have hq := h.queues
  cases h.stacked with
  | steady hdeep hcle htop =>
    rw [hsta] at hdeep
    rw [hdeep.tail.2] at hf
    cases hf
  | brief g rest' hsta' hbri hcle =>
    rw [hsta] at hsta'
    obtain ⟨rfl, rfl⟩ := List.cons.inj hsta'
    rw [closing_cons hbri.deep hsta] at hheld hq
    rw [signalling_cons hbri.deep hsta] at hq
    exact ⟨hbri, hcle, hq, hheld⟩
  | returning t g rest' hsta' =>
    rw [hsta] at hsta'
    rw [(List.cons.inj hsta').1] at hf
    cases hf

lemma getLsbD_highBitSet64 {operand : BitVec 64} (h : operand ≠ 0#64) :
    operand.getLsbD (highBitSet64 operand) = true := by
  have hne : operand.toNat ≠ 0 := fun hzero => h (BitVec.eq_of_toNat_eq (by simpa using hzero))
  exact Nat.testBit_log2 hne

lemma getLsbD_of_highBitSet64_lt {operand : BitVec 64} {i : ℕ} (h : highBitSet64 operand < i) :
    operand.getLsbD i = false := by
  apply Nat.testBit_lt_two_pow
  by_cases hzero : operand.toNat = 0
  · rw [hzero]
    exact Nat.two_pow_pos i
  · exact (Nat.log2_lt hzero).mp h

lemma clean_of_le (h : s.pending = 0#64 ∨ highBitSet64 s.pending ≤ t) : s.Clean t := by
  intro p hp
  grind [getLsbD_of_highBitSet64_lt]

lemma Inv.restoreLoop (h : Inv s) (hsta : s.stack = .restore t :: rest) :
    Inv (restoreLoop s t rest) := by
  by_cases hdone : s.pending = 0#64 ∨ highBitSet64 s.pending ≤ t
  · have hcle := clean_of_le hdone
    rw [Event.restoreLoop, if_pos hdone]
    cases h.stacked with
    | steady hdeep hcle' htop =>
      have hq := h.queues_of_deep hdeep
      rw [hsta] at hdeep
      exact inv_of_deep hdeep.2 (hq.congr rfl rfl rfl rfl rfl) (fun _ => hcle) hdeep.1
    | brief f rest' hsta' hbri hcle' =>
      rw [hsta] at hsta'
      rw [← (List.cons.inj hsta').1] at hbri
      exact hbri.elim
    | returning t' f rest' hsta' hbri hcle' =>
      have hheld := h.held f (by rw [hsta']; simp)
      have hq := h.queues
      rw [closing_restore hbri.deep hsta'] at hheld hq
      rw [signalling_restore hbri.deep hsta'] at hq
      rw [hsta] at hsta'
      obtain ⟨hfra, rfl⟩ := List.cons.inj hsta'
      obtain rfl := Frame.restore.inj hfra
      exact inv_of_brief rfl hbri hcle (hq.congr rfl rfl rfl rfl rfl) (hheld.congr rfl)
  · rw [Event.restoreLoop, if_neg hdone]
    obtain ⟨hne, hlt⟩ := not_or.mp hdone
    have hbit := getLsbD_highBitSet64 hne
    cases h.stacked with
    | steady hdeep hcle htop =>
      have hq := h.queues_of_deep hdeep
      rw [hsta] at hdeep
      apply inv_of_deep
      · exact ⟨⟨t, rest, rfl, Nat.lt_of_not_le hlt⟩, hdeep⟩
      · exact hq.congr rfl rfl rfl rfl rfl
      · exact fun _ => clean_of_le (Or.inr le_rfl)
      simp
    | brief f rest' hsta' hbri hcle' =>
      rw [hsta] at hsta'
      rw [← (List.cons.inj hsta').1] at hbri
      exact hbri.elim
    | returning t' f rest' hsta' hbri hcle =>
      rw [hsta] at hsta'
      obtain rfl := Frame.restore.inj (List.cons.inj hsta').1
      rw [hcle _ (Nat.lt_of_not_le hlt)] at hbit
      cases hbit

lemma inv_locked {body : State → State} (hdeep : Deep (.restore s.tpl :: rest))
    (hq : Queues (body s) (fun _ => False) (fun _ => False)) : Inv (s.locked body rest) :=
  inv_of_deep hdeep (hq.congr rfl rfl rfl rfl rfl) (fun h => absurd rfl (h s.tpl rest))
    (fun p first rest' heq => by cases (List.cons.inj heq).1)

lemma inv_locked_brief {body : State → State} (hbri : Brief rest s.tpl f)
    (hcle : (body s).Clean s.tpl)
    (hq : Queues (body s) (fun x => f = .closeFree x) (fun x => f = .signalList x))
    (hheld : Held (body s) (fun x => f = .closeFree x) f) : Inv (s.locked body (f :: rest)) :=
  inv_of_returning rfl hbri hcle (hq.congr rfl rfl rfl rfl rfl) (hheld.congr rfl)

/-- The event that is taken out of the queue is in the queue of the current priority, and nothing
is queued above it. -/
lemma Inv.dispatchLoop {first : Bool} (h : Inv s) (hsta : s.stack = .dispatch p first :: rest)
    (hstep : dispatchLoop s p first rest = some s') : Inv s' := by
  obtain ⟨hdeep, hcle, htop⟩ := h.at_steady hsta rfl (fun t ht => by cases ht)
  have hq := h.queues_of_deep (hsta ▸ hdeep)
  obtain ⟨⟨t, rest', rfl, hlt⟩, hrest⟩ := hdeep
  rw [Event.dispatchLoop] at hstep
  split_ifs at hstep
  cases hque : s.queue p with
  | nil =>
    rw [hque] at hstep
    obtain rfl := Option.some.inj hstep
    refine inv_locked ⟨fun p' first' rest'' heq => ?_, hrest⟩ (hq.clear hque)
    cases (List.cons.inj heq).1
  | cons y events =>
    rw [hque] at hstep
    obtain rfl := Option.some.inj hstep
    have hbit : s.pending.getLsbD p = true := hq.pending p (by rw [hque]; simp)
    have hle : p ≤ s.tpl := by
      by_contra hnot
      rw [hcle p (Nat.lt_of_not_le hnot)] at hbit
      cases hbit
    have htpl : s.tpl = p := Nat.le_antisymm (htop p first rfl) hle
    obtain ⟨e, hopen, -⟩ := hq.queued p y (by rw [hque]; exact List.mem_cons_self)
    refine inv_locked_brief ⟨htpl, ⟨t, rest', rfl, hlt⟩, hrest⟩ hcle ?_ ?_
    · simpa using hq.dequeue hque
    · refine ⟨fun p' y' heq => ?_, fun y' heq => by cases heq⟩
      obtain ⟨-, rfl⟩ := Frame.call.inj heq
      simpa using dequeue_open hopen

lemma Inv.callNotify (h : Inv s) (hsta : s.stack = .call p x :: rest)
    (hstep : callNotify s p x rest = some s') : Inv s' := by
  obtain ⟨⟨htpl, hres, hdeep⟩, hcle, hq, -⟩ := h.at_brief hsta rfl
  obtain ⟨e, he, hstep⟩ := Option.bind_eq_some_iff.mp hstep
  split_ifs at hstep
  obtain rfl := Option.some.inj hstep
  apply inv_of_deep
  · exact ⟨⟨rest, by rw [htpl]⟩, hres, hdeep⟩
  · have hq' : Queues s (fun _ => False) (fun _ => False) := by simpa using hq
    exact hq'.congr rfl rfl rfl rfl rfl
  · exact fun _ => hcle
  · intro p' first rest' heq
    cases (List.cons.inj heq).1

lemma Inv.signalList (h : Inv s) (hsta : s.stack = .signalList x :: rest)
    (hstep : proceed s = some s') : Inv s' := by
  obtain ⟨⟨hclient, hdeep⟩, -, hq, hheld⟩ := h.at_brief hsta rfl
  obtain ⟨e', hopen, hsig⟩ := hheld.signal x rfl
  simp only [reduceCtorEq, Frame.signalList.injEq] at hq hopen
  rw [proceed, hsta] at hstep
  obtain ⟨e, he, hstep⟩ := Option.bind_eq_some_iff.mp hstep
  obtain rfl : e = e' := Option.some.inj (he.symm.trans hopen.found)
  obtain rfl := Option.some.inj hstep
  refine inv_locked (deep_restore (f := .signalEnd) (fun p first heq => by cases heq)
    ⟨hclient, hdeep⟩) ?_
  apply (hq.notifySignalLoop hq.listedOpen).weaken
  rintro y ⟨rfl, hall⟩
  exact hall e (hq.listed x e hopen hsig) hopen rfl

lemma Inv.signalEnd (h : Inv s) (hsta : s.stack = .signalEnd :: rest) : Inv (s.locked id rest) := by
  obtain ⟨⟨hclient, hdeep⟩, -, -⟩ := h.at_steady hsta rfl (fun t ht => by cases ht)
  have hq := h.queues_of_deep (hsta ▸ ⟨hclient, hdeep⟩)
  exact inv_locked (hclient.deep_restore hdeep) hq

lemma Inv.checkClear (h : Inv s) (hsta : s.stack = .checkClear x :: rest)
    (hstep : checkClear s x rest = some s') : Inv s' := by
  obtain ⟨⟨hclient, hdeep⟩, hcle, -⟩ := h.at_steady hsta rfl (fun t ht => by cases ht)
  have hq := h.queues_of_deep (hsta ▸ ⟨hclient, hdeep⟩)
  obtain ⟨e, he, hstep⟩ := Option.bind_eq_some_iff.mp hstep
  split_ifs at hstep with hcnt
  · obtain rfl := Option.some.inj hstep
    have hq' : Queues (s.return .success) (fun _ => False) (fun _ => False) :=
      hq.congr rfl rfl rfl rfl rfl
    refine inv_locked (hclient.deep_restore hdeep) ?_
    exact hq'.setCount he 0 (fun _ hne => absurd rfl hne) fun _ h => h
  · obtain rfl := Option.some.inj hstep
    refine inv_of_deep hdeep (hq.congr rfl rfl rfl rfl rfl) (fun _ => hcle) ?_
    intro p first rest' heq
    obtain ⟨y, t, hy⟩ := hclient _ _ heq
    cases hy

lemma Inv.closeUnlink (h : Inv s) (hsta : s.stack = .closeUnlink x :: rest)
    (hstep : closeUnlink s x rest = some s') : Inv s' := by
  obtain ⟨⟨hclient, hdeep⟩, hcle, hq, -⟩ := h.at_brief hsta rfl
  obtain ⟨e, he, hstep⟩ := Option.bind_eq_some_iff.mp hstep
  obtain rfl := Option.some.inj hstep
  have hbody := hq.removeNotify he
  refine inv_locked_brief (f := .closeFree x) ⟨hclient, hdeep⟩ ?_ ?_ ?_
  · dsimp only
    rw [hbody]
    exact hcle
  · dsimp only
    rw [hbody]
    have hunl : Queues { s with
        queue := Function.update s.queue e.notifyTpl ((s.queue e.notifyTpl).erase x)
        signalQueue := s.signalQueue.erase x } _ _ := hq.unlink he rfl rfl rfl rfl rfl
    simpa [eq_comm] using hunl
  · exact ⟨fun p y heq => (by cases heq), fun y heq => by cases heq⟩

lemma Inv.closeFree (h : Inv s) (hsta : s.stack = .closeFree x :: rest) :
    Inv { (s.update x ({ · with signature := false })).return .success with stack := rest } := by
  obtain ⟨⟨hclient, hdeep⟩, hcle, hq, -⟩ := h.at_brief hsta rfl
  have hq' : Queues s (· = x) (fun _ => False) := by simpa [eq_comm] using hq
  refine inv_of_deep hdeep (hq'.free.congr rfl rfl rfl rfl rfl) (fun _ => hcle) ?_
  intro p first rest' heq
  obtain ⟨y, t, hy⟩ := hclient _ _ heq
  cases hy

lemma Inv.proceed (h : Inv s) (hstep : proceed s = some s') : Inv s' := by
  cases hsta : s.stack with
  | nil => simp [Event.proceed, hsta] at hstep
  | cons f rest =>
    cases f with
    | notify y t => simp [Event.proceed, hsta] at hstep
    | restore t =>
      rw [Event.proceed, hsta] at hstep
      obtain rfl := Option.some.inj hstep
      exact h.restoreLoop hsta
    | dispatch p first =>
      rw [Event.proceed, hsta] at hstep
      exact h.dispatchLoop hsta hstep
    | call p y =>
      rw [Event.proceed, hsta] at hstep
      exact h.callNotify hsta hstep
    | signalList y => exact h.signalList hsta hstep
    | signalEnd =>
      rw [Event.proceed, hsta] at hstep
      obtain rfl := Option.some.inj hstep
      exact h.signalEnd hsta
    | checkClear y =>
      rw [Event.proceed, hsta] at hstep
      exact h.checkClear hsta hstep
    | closeUnlink y =>
      rw [Event.proceed, hsta] at hstep
      exact h.closeUnlink hsta hstep
    | closeFree y =>
      rw [Event.proceed, hsta] at hstep
      obtain rfl := Option.some.inj hstep
      exact h.closeFree hsta

/-! ### Calls -/

lemma Client.not_dispatch {stack : List Frame} (h : Client stack) {first : Bool} :
    stack ≠ .dispatch p first :: rest := by
  intro heq
  obtain ⟨y, t, hy⟩ := h _ _ heq
  cases hy

lemma inv_of_client (hclient : Client s.stack) (hdeep : Deep s.stack) (hcle : s.Clean s.tpl)
    (hq : Queues s (fun _ => False) (fun _ => False)) : Inv s :=
  inv_of_deep hdeep hq (fun _ => hcle) fun _ _ _ heq => absurd heq hclient.not_dispatch

section Client

variable (h : Inv s) (hclient : Client s.stack)
include h hclient

lemma Inv.return (status : EfiStatus) : Inv (s.return status) := by
  obtain ⟨hdeep, hcle⟩ := h.at_client hclient
  exact inv_of_client hclient hdeep hcle ((h.queues_of_deep hdeep).congr rfl rfl rfl rfl rfl)

lemma Inv.insertEvent (hsig : e.signature = true) (hcnt : e.signalCount = 0)
    (hlin : e.linked = false) (hbel : e.notifyTpl < tplHighLevel) :
    Inv (insertEvent s e) := by
  obtain ⟨hdeep, -⟩ := h.at_client hclient
  have hq := h.queues_of_deep hdeep
  refine inv_locked (hclient.deep_restore hdeep)
    (hq.insert not_false hsig hcnt hlin hbel ?_ ?_ ?_ ?_ ?_)
  all_goals cases e.notifySignal <;> rfl

lemma Inv.coreCreateEventInternal (c : Creation) : Inv (coreCreateEventInternal s c) := by
  unfold Event.coreCreateEventInternal
  by_cases htype : c.type ∉ mEventTable
  · rw [if_pos htype]
    exact h.return hclient _
  · rw [if_neg htype]
    cases convertType c.type c.group with
    | none => exact h.return hclient _
    | some x =>
      obtain ⟨type, group⟩ := x
      dsimp only
      split_ifs with hnot hinv hall
      · exact h.return hclient _
      · exact h.return hclient _
      · rw [not_or, not_or] at hinv
        exact h.insertEvent hclient rfl rfl rfl (Nat.lt_of_not_le hinv.2.2)
      · exact h.return hclient _
      · exact h.insertEvent hclient rfl rfl rfl (Nat.zero_lt_succ 30)

lemma Inv.coreCreateEventEx (c : Creation) : Inv (coreCreateEventEx s c) := by
  unfold Event.coreCreateEventEx
  split_ifs
  · exact h.return hclient _
  · exact h.coreCreateEventInternal hclient c

lemma Inv.coreSignalEvent (x : EventId) : Inv (coreSignalEvent s x) := by
  obtain ⟨hdeep, hcle⟩ := h.at_client hclient
  have hq : Queues (s.return .success) (fun _ => False) (fun _ => False) :=
    (h.queues_of_deep hdeep).congr rfl rfl rfl rfl rfl
  unfold Event.coreSignalEvent
  cases hloo : s.lookup x with
  | none => exact h.return hclient _
  | some e =>
    obtain ⟨he, hsign⟩ := Option.filter_eq_some_iff.mp hloo
    have he' : (s.return .success).events x = some e := he
    dsimp only
    split_ifs with hcnt hsigna hgro
    · -- the event is apart until its group is signalled
      refine inv_locked_brief (f := .signalList x) ⟨hclient, hdeep⟩ hcle ?_ ?_
      · simp only [reduceCtorEq]
        exact hq.setCount he 1 (fun _ _ => Or.inr rfl) fun _ hy => hy.elim
      · refine ⟨fun p y heq => (by cases heq), fun y heq => ?_⟩
        obtain rfl := Frame.signalList.inj heq
        rw [update_of_some _ he']
        exact ⟨_, ⟨Function.update_self .., hsign, fun h => by cases h⟩, hsigna⟩
    · refine inv_locked (hclient.deep_restore hdeep) ?_
      have hset : Queues ((s.return .success).update x ({ · with signalCount := 1 }))
          (fun _ => False) (fun y => y = x) :=
        hq.setCount he 1 (fun _ _ => Or.inr rfl) fun _ hy => hy.elim
      have hopen : ((s.return .success).update x ({ · with signalCount := 1 })).Open
          (fun _ => False) x { e with signalCount := 1 } := by
        rw [update_of_some _ he']
        exact ⟨Function.update_self .., hsign, not_false⟩
      exact (hset.notify hopen).weaken fun y hy => hy.2 hy.1
    · refine inv_locked (hclient.deep_restore hdeep) ?_
      exact hq.setCount he 1 (fun hsig => absurd hsig hsigna) fun _ hy => hy
    · exact inv_locked (hclient.deep_restore hdeep) hq

lemma Inv.coreCheckEvent (x : EventId) : Inv (coreCheckEvent s x) := by
  obtain ⟨hdeep, hcle⟩ := h.at_client hclient
  have hq := h.queues_of_deep hdeep
  unfold Event.coreCheckEvent
  cases hloo : s.lookup x with
  | none => exact h.return hclient _
  | some e =>
    obtain ⟨he, hsig⟩ := Option.filter_eq_some_iff.mp hloo
    dsimp only
    split_ifs
    · exact h.return hclient _
    · refine inv_locked (deep_restore (f := .checkClear x) (fun p first heq => by cases heq)
        ⟨hclient, hdeep⟩) ?_
      exact (hq.notify ⟨he, hsig, not_false⟩).weaken fun y hy => hy.1
    · refine inv_of_deep ⟨hclient, hdeep⟩ (hq.congr rfl rfl rfl rfl rfl) (fun _ => hcle) ?_
      intro p first rest heq
      cases (List.cons.inj heq).1

lemma Inv.coreCloseEvent {x : EventId} (hstep : coreCloseEvent s x = some s') : Inv s' := by
  obtain ⟨hdeep, hcle⟩ := h.at_client hclient
  have hq := h.queues_of_deep hdeep
  unfold Event.coreCloseEvent at hstep
  cases hloo : s.lookup x with
  | none =>
    rw [hloo] at hstep
    obtain rfl := Option.some.inj hstep
    exact h.return hclient _
  | some e =>
    simp only [hloo] at hstep
    have hq' : Queues s (fun y => Frame.closeUnlink x = .closeFree y)
        (fun y => Frame.closeUnlink x = .signalList y) := by
      simpa using hq
    have hheld : Held s (fun y => Frame.closeUnlink x = .closeFree y) (.closeUnlink x) :=
      ⟨fun p y heq => (by cases heq), fun y heq => by cases heq⟩
    split_ifs at hstep
    · obtain rfl := Option.some.inj hstep
      exact inv_of_returning rfl ⟨hclient, hdeep⟩ hcle (hq'.congr rfl rfl rfl rfl rfl)
        (hheld.congr rfl)
    · obtain rfl := Option.some.inj hstep
      exact inv_of_brief rfl ⟨hclient, hdeep⟩ hcle (hq'.congr rfl rfl rfl rfl rfl) (hheld.congr rfl)

lemma Inv.coreRaiseTpl (hstep : coreRaiseTpl s t = some s') : Inv s' := by
  obtain ⟨hdeep, hcle⟩ := h.at_client hclient
  unfold Event.coreRaiseTpl at hstep
  split_ifs at hstep with hass
  obtain rfl := Option.some.inj hstep
  have hle : s.tpl ≤ t := Nat.le_of_not_lt fun hlt => hass (Or.inl hlt)
  exact inv_of_client hclient hdeep (fun p hp => hcle p (Nat.lt_of_le_of_lt hle hp))
    ((h.queues_of_deep hdeep).congr rfl rfl rfl rfl rfl)

lemma Inv.coreRestoreTpl (hstep : coreRestoreTpl s t = some s') : Inv s' := by
  obtain ⟨hdeep, -⟩ := h.at_client hclient
  unfold Event.coreRestoreTpl at hstep
  split_ifs at hstep
  all_goals
    obtain rfl := Option.some.inj hstep
    refine inv_of_deep (hclient.deep_restore hdeep)
      ((h.queues_of_deep hdeep).congr rfl rfl rfl rfl rfl) (fun hnot => absurd rfl (hnot _ _)) ?_
    intro p first rest heq
    cases (List.cons.inj heq).1

lemma Inv.call {c : Call} (hstep : c.run s = some s') : Inv s' := by
  cases c with
  | createEventInternal c =>
    obtain rfl := Option.some.inj hstep
    exact h.coreCreateEventInternal hclient c
  | createEventEx c =>
    obtain rfl := Option.some.inj hstep
    exact h.coreCreateEventEx hclient c
  | signalEvent x =>
    obtain rfl := Option.some.inj hstep
    exact h.coreSignalEvent hclient x
  | checkEvent x =>
    obtain rfl := Option.some.inj hstep
    exact h.coreCheckEvent hclient x
  | closeEvent x => exact h.coreCloseEvent hclient hstep
  | raiseTpl t => exact h.coreRaiseTpl hclient hstep
  | restoreTpl t => exact h.coreRestoreTpl hclient hstep

end Client

/-- A notification function does not return above the priority at which it was entered. -/
def Careful (s : State) : Action → Prop
  | .return => ∀ x t rest, s.stack = .notify x t :: rest → s.tpl ≤ t
  | _ => True

lemma Inv.step {a : Action} (h : Inv s) (hcar : Careful s a) (hstep : step s a = some s') :
    Inv s' := by
  cases a with
  | call c =>
    rw [Event.step] at hstep
    split_ifs at hstep with hrun
    exact h.call (client_of_running hrun) hstep
  | proceed => exact h.proceed hstep
  | «return» =>
    rw [Event.step] at hstep
    split at hstep
    · next x t rest hsta =>
      obtain rfl := Option.some.inj hstep
      have hle := hcar x t rest hsta
      obtain ⟨hdeep, hcle, -⟩ := h.at_steady hsta rfl (fun t ht => by cases ht)
      have hq := h.queues_of_deep (hsta ▸ hdeep)
      obtain ⟨⟨rest', rfl⟩, hrest⟩ := hdeep
      refine inv_of_deep hrest (hq.congr rfl rfl rfl rfl rfl) (fun _ => hcle) ?_
      grind
    · cases hstep

/-- The states that careful runs reach. -/
inductive Reaches : State → Prop
  | initial : Reaches State.initial
  | next {s s' : State} {a : Action} (h : Reaches s) (hcareful : Careful s a)
    (hstep : step s a = some s') : Reaches s'

lemma Reaches.inv (h : Reaches s) : Inv s := by
  induction h with
  | initial => exact inv_initial
  | next _ hcar hstep ih => exact ih.step hcar hstep

lemma Queues.queue_eq_nil {closing signalling : EventId → Prop} (h : Queues s closing signalling)
    (hcle : s.Clean t) {q : Tpl} (hq : t < q) : s.queue q = [] := by
  by_contra hne
  have := h.pending q hne
  rw [hcle q hq] at this
  cases this

/-- What holds whenever the lock is free. -/
structure Ordered (s : State) : Prop where
  pending : ∀ p, s.queue p ≠ [] → s.pending.getLsbD p = true
  queued : ∀ p, ∀ x ∈ s.queue p, ∃ e, s.events x = some e ∧ e.notifyTpl = p
  once : ∀ p, (s.queue p).Nodup
  signalled : ∀ x e, s.Open s.closing x e → e.notifySignal = true → e.signalCount ≠ 0 →
    x ∈ s.queue e.notifyTpl ∨ s.signalling x
  /-- While other code runs, no event is being closed, and no group is being signalled. -/
  running : s.running = true → ∀ x, ¬s.closing x ∧ ¬s.signalling x
  entered : ∀ p x rest, s.stack = .call p x :: rest →
    s.tpl = p ∧ Restoring s.tpl rest ∧ ∃ e, s.Open s.closing x e
  highest : ∀ p x rest, s.stack = .call p x :: rest → ∀ q, p < q → s.queue q = []

/-- A step takes the first event of a queue, and nothing is queued above it. -/
def Picks (s s' : State) : Prop :=
  ∀ p first rest x, s.stack = .dispatch p first :: rest →
    s'.stack = .restore s.tpl :: .call p x :: rest →
    s.queue p = x :: s'.queue p ∧ ∀ q, p < q → s.queue q = []

/-- When `CoreRestoreTpl` returns nothing is queued above the priority. -/
def Restores (s s' : State) : Prop :=
  ∀ t rest, s.stack = .restore t :: rest → s'.stack = rest →
    s'.tpl = t ∧ ∀ q, t < q → s'.queue q = []

lemma Inv.ordered (h : Inv s) : Ordered s where
  pending := h.queues.pending
  queued p x hx := by
    obtain ⟨e, hopen, htpl, -⟩ := h.queues.queued p x hx
    exact ⟨e, hopen.found, htpl⟩
  once := h.queues.nodup
  signalled := h.queues.signalled
  running hrun x := by
    obtain ⟨hdeep, -⟩ := h.at_client (client_of_running hrun)
    exact ⟨hdeep.not_mem rfl, hdeep.not_mem rfl⟩
  entered p x rest hstack := by
    obtain ⟨⟨htpl, hres, -⟩, -⟩ := h.at_brief hstack rfl
    have hheld := h.held (.call p x) (hstack ▸ List.mem_cons_self)
    exact ⟨htpl, htpl ▸ hres, hheld.call p x rfl⟩
  highest p x rest hstack q hq := by
    obtain ⟨⟨htpl, -⟩, hcle, hque, -⟩ := h.at_brief hstack rfl
    exact hque.queue_eq_nil hcle (htpl ▸ hq)

lemma Inv.picks (h : Inv s) (hstep : Event.step s .proceed = some s') : Picks s s' := by
  intro p first rest x hsta hsta'
  obtain ⟨hdeep, hcle, htop⟩ := h.at_steady hsta rfl (fun t ht => by cases ht)
  have hq := h.queues_of_deep (hsta ▸ hdeep)
  rw [Event.step, Event.proceed, hsta] at hstep
  dsimp only at hstep
  rw [Event.dispatchLoop] at hstep
  split_ifs at hstep
  cases hque : s.queue p with
  | nil =>
    rw [hque] at hstep
    obtain rfl := Option.some.inj hstep
    have := congrArg List.length hsta'
    simp [State.locked] at this
  | cons y events =>
    rw [hque] at hstep
    obtain rfl := Option.some.inj hstep
    simp only [State.locked, List.cons.injEq, Frame.call.injEq, true_and, and_true] at hsta'
    subst hsta'
    refine ⟨?_, fun q hq' => ?_⟩
    · simp [State.locked, dequeue]
    · exact hq.queue_eq_nil hcle (Nat.lt_of_le_of_lt (htop p first rfl) hq')

lemma Inv.restores (h : Inv s) (hstep : Event.step s .proceed = some s') : Restores s s' := by
  intro t rest hsta hsta'
  rw [Event.step, Event.proceed, hsta] at hstep
  obtain rfl := Option.some.inj hstep
  rw [Event.restoreLoop] at hsta' ⊢
  split_ifs at hsta' ⊢ with hdone
  · exact ⟨rfl, fun q hq => h.queues.queue_eq_nil (clean_of_le hdone) hq⟩
  grind [List.length_cons]

/-- The events are notified in order, and no signal is lost. -/
theorem ordered_of_reaches (h : Reaches s) :
    Ordered s ∧ ∀ s', step s .proceed = some s' → Picks s s' ∧ Restores s s' :=
  ⟨h.inv.ordered, fun _ hstep => ⟨h.inv.picks hstep, h.inv.restores hstep⟩⟩

/-- An event whose notification is queued by a signal. -/
def signalEvent (notifyTpl : Tpl) (group : Option EventGroup) : Action :=
  .call (.createEventEx ⟨evtNotifySignal, notifyTpl, true, group, true⟩)

/-- An event is signalled at a high priority and notified when the priority is restored. -/
theorem ordered_of_reaches_restore : ∃ s, Reaches s ∧
    s.stack = [.call tplNotify 0, .restore tplApplication] ∧
    (Ordered s ∧ ∀ s', step s .proceed = some s' → Picks s s' ∧ Restores s s') := by
  have h₁ := Reaches.initial.next (a := signalEvent tplNotify none) trivial rfl
  have h₂ := h₁.next (a := .proceed) trivial rfl
  have h₃ := h₂.next (a := .call (.raiseTpl tplHighLevel)) trivial rfl
  have h₄ := h₃.next (a := .call (.signalEvent 0)) trivial rfl
  have h₅ := h₄.next (a := .proceed) trivial rfl
  have h₆ := h₅.next (a := .call (.restoreTpl tplApplication)) trivial rfl
  have h₇ := h₆.next (a := .proceed) trivial rfl
  have h₈ := h₇.next (a := .proceed) trivial rfl
  have h₉ := h₈.next (a := .proceed) trivial rfl
  exact ⟨_, h₉, rfl, ordered_of_reaches h₉⟩

/-- The states of a run, one action after the other. -/
def run (s : State) (actions : List Action) : Option State := actions.foldlM step s

/-- A group is signalled: the lock is released before the event is queued. -/
def groupSignal : List Action :=
  [signalEvent tplNotify (some (.guid 1)), .proceed, .call (.signalEvent 0), .proceed]

/-- A notification function raises the priority, signals an event and returns. -/
def raisedReturn : List Action :=
  [signalEvent tplCallback none, .proceed, signalEvent tplCallback none, .proceed,
    signalEvent tplNotify none, .proceed, .call (.raiseTpl tplHighLevel),
    .call (.signalEvent 0), .proceed, .call (.signalEvent 1), .proceed,
    .call (.restoreTpl tplApplication), .proceed, .proceed, .proceed, .proceed,
    .call (.raiseTpl tplHighLevel), .call (.signalEvent 2), .proceed, .return, .proceed, .proceed]

/-- In the middle of a group signal the event is signalled and not queued, and a notification
function that returns above its priority makes an event wait for one of a lower priority. -/
theorem not_ordered_run :
    (¬∀ actions s, run .initial actions = some s → ∀ x e, s.Open s.closing x e →
      e.notifySignal = true → e.signalCount ≠ 0 → x ∈ s.queue e.notifyTpl) ∧
    ¬∀ actions s, run .initial actions = some s → ∀ p x rest, s.stack = .call p x :: rest →
      ∀ q, p < q → s.queue q = [] := by
  constructor
  · intro hall
    have hclosing : Frame.closeFree 0 ∉ [Frame.signalList 0] := by decide
    have hmem := hall groupSignal _ rfl 0 _ ⟨rfl, rfl, hclosing⟩ rfl Nat.one_ne_zero
    cases hmem
  · intro hall
    have hnil := hall raisedReturn _ rfl tplCallback 1 _ rfl tplNotify (by decide)
    cases hnil

end Edk2.Event
