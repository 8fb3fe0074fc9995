import Edk2.Event.Notify
import Mathlib.Data.List.Nodup
import Mathlib.Order.Basic

/-!
# The notify queues

What holds of the queues whenever the lock is free, and what each operation that is done under the
lock makes of it. Two events may be apart from the others: one that is being closed, and one whose
group is being signalled.
-/

namespace Edk2.Event

variable {s s' : State} {closing signalling : EventId → Prop} {event : EventId} {e : IEvent}

/-- The event was not closed. -/
structure State.Open (s : State) (closing : EventId → Prop) (event : EventId) (e : IEvent) :
    Prop where
  found : s.events event = some e
  signature : e.signature = true
  notClosing : ¬closing event

structure Queues (s : State) (closing signalling : EventId → Prop) : Prop where
  pending : ∀ p, s.queue p ≠ [] → s.pending.getLsbD p = true
  queued : ∀ p, ∀ x ∈ s.queue p, ∃ e, s.Open closing x e ∧ e.notifyTpl = p ∧ e.linked = true
  nodup : ∀ p, (s.queue p).Nodup
  linked : ∀ x e, s.Open closing x e → e.linked = true → x ∈ s.queue e.notifyTpl
  signalled : ∀ x e, s.Open closing x e → e.notifySignal = true → e.signalCount ≠ 0 →
    x ∈ s.queue e.notifyTpl ∨ signalling x
  listed : ∀ x e, s.Open closing x e → e.notifySignal = true → x ∈ s.signalQueue
  listedOpen : ∀ x ∈ s.signalQueue, ∃ e, s.Open closing x e
  signalNodup : s.signalQueue.Nodup
  below : ∀ x e, s.events x = some e → e.notifyTpl < tplHighLevel
  fresh : ∀ x e, s.events x = some e → x < s.fresh

lemma queues_initial : Queues State.initial (fun _ => False) (fun _ => False) where
  pending p h := absurd rfl h
  queued p x hx := by cases hx
  nodup p := List.nodup_nil
  linked x e h := by cases h.found
  signalled x e h := by cases h.found
  listed x e h := by cases h.found
  listedOpen x hx := by cases hx
  signalNodup := List.nodup_nil
  below x e h := by cases h
  fresh x e h := by cases h

lemma Queues.congr (h : Queues s closing signalling) (heve : s'.events = s.events)
    (hfre : s'.fresh = s.fresh) (hque : s'.queue = s.queue) (hpen : s'.pending = s.pending)
    (hsig : s'.signalQueue = s.signalQueue) : Queues s' closing signalling := by
  have hopen : ∀ x e, s'.Open closing x e → s.Open closing x e :=
    fun x e hx => ⟨heve ▸ hx.found, hx.signature, hx.notClosing⟩
  have hope' : ∀ x e, s.Open closing x e → s'.Open closing x e :=
    fun x e hx => ⟨heve.symm ▸ hx.found, hx.signature, hx.notClosing⟩
  constructor
  · rw [hque, hpen]
    exact h.pending
  · intro p x hx
    obtain ⟨e, he, hrest⟩ := h.queued p x (hque ▸ hx)
    exact ⟨e, hope' x e he, hrest⟩
  · rw [hque]
    exact h.nodup
  · rw [hque]
    exact fun x e hx => h.linked x e (hopen x e hx)
  · rw [hque]
    exact fun x e hx => h.signalled x e (hopen x e hx)
  · rw [hsig]
    exact fun x e hx => h.listed x e (hopen x e hx)
  · rw [hsig]
    intro x hx
    obtain ⟨e, he⟩ := h.listedOpen x hx
    exact ⟨e, hope' x e he⟩
  · rw [hsig]
    exact h.signalNodup
  · rw [heve]
    exact h.below
  · rw [heve, hfre]
    exact h.fresh

lemma Queues.weaken {signalling' : EventId → Prop} (h : Queues s closing signalling)
    (hkeep : ∀ x, signalling x → signalling' x) : Queues s closing signalling' where
  __ := h
  signalled x e ho hsig hc := (h.signalled x e ho hsig hc).imp_right (hkeep x)

lemma Queues.mem_queue_iff (h : Queues s closing signalling) (he : s.events event = some e)
    (p : Tpl) : event ∈ s.queue p ↔
      p = e.notifyTpl ∧ e.linked = true ∧ e.signature = true ∧ ¬closing event := by
  constructor
  · intro hmem
    obtain ⟨e', hopen, htpl, hlin⟩ := h.queued p event hmem
    obtain rfl : e = e' := Option.some.inj (he.symm.trans hopen.found)
    exact ⟨htpl.symm, hlin, hopen.signature, hopen.notClosing⟩
  · rintro ⟨rfl, hlin, hsig, hclo⟩
    exact h.linked event e ⟨he, hsig, hclo⟩ hlin

lemma Queues.removeNotify (h : Queues s closing signalling) (he : s.events event = some e) :
    (if e.linked then s.removeNotify event else s) =
      { s with
        queue := Function.update s.queue e.notifyTpl ((s.queue e.notifyTpl).erase event) } := by
  have hque : (fun p => (s.queue p).erase event) =
      Function.update s.queue e.notifyTpl ((s.queue e.notifyTpl).erase event) := by
    funext p
    by_cases hp : p = e.notifyTpl
    · rw [hp, Function.update_self]
    · rw [Function.update_of_ne hp, List.erase_of_not_mem]
      exact fun hmem => hp ((h.mem_queue_iff he p).mp hmem).1
  cases hlin : e.linked with
  | true => rw [if_pos rfl, State.removeNotify, hque]
  | false =>
    rw [List.erase_of_not_mem, Function.update_eq_self]
    · rfl
    · intro hmem
      have := ((h.mem_queue_iff he _).mp hmem).2.1
      rw [hlin] at this
      cases this

/-- An event is written and put into its queue or taken out of it, and all others stay where they
are. -/
lemma Queues.change {e' : IEvent} {signalling' : EventId → Prop}
    (h : Queues s closing signalling) (he : s.events event = some e)
    (heve : s'.events = Function.update s.events event (some e'))
    (hfre : s'.fresh = s.fresh) (hlist : s'.signalQueue = s.signalQueue)
    (hsign : e'.signature = e.signature) (htype : e'.type = e.type)
    (htpl : e'.notifyTpl = e.notifyTpl)
    (hpen : ∀ p, s'.queue p ≠ [] → s'.pending.getLsbD p = true)
    (hnod : ∀ p, (s'.queue p).Nodup)
    (hself : ∀ p, event ∈ s'.queue p ↔
      p = e.notifyTpl ∧ e'.linked = true ∧ e.signature = true ∧ ¬closing event)
    (hoth : ∀ x p, x ≠ event → (x ∈ s'.queue p ↔ x ∈ s.queue p))
    (hsigna : e.notifySignal = true → e'.signalCount ≠ 0 → e'.linked = true ∨ signalling' event)
    (hkeep : ∀ x, x ≠ event → signalling x → signalling' x) :
    Queues s' closing signalling' := by
  have hat : ∀ x e'', s'.events x = some e'' ↔
      x = event ∧ e' = e'' ∨ x ≠ event ∧ s.events x = some e'' := by
    intro x e''
    rw [heve]
    by_cases hx : x = event
    · subst hx
      simp
    · simp [hx]
  have hopen : ∀ x e'', s'.Open closing x e'' ↔ x = event ∧ e' = e'' ∧ s.Open closing event e ∨
      x ≠ event ∧ s.Open closing x e'' := by
    intro x e''
    constructor
    · rintro ⟨hfnd, hsig, hnot⟩
      rcases (hat x e'').mp hfnd with ⟨rfl, rfl⟩ | ⟨hx, hfnd⟩
      · exact Or.inl ⟨rfl, rfl, he, hsign ▸ hsig, hnot⟩
      · exact Or.inr ⟨hx, hfnd, hsig, hnot⟩
    · rintro (⟨rfl, rfl, ho⟩ | ⟨hx, ho⟩)
      · exact ⟨(hat x e').mpr (Or.inl ⟨rfl, rfl⟩), hsign.trans ho.signature, ho.notClosing⟩
      · exact ⟨(hat x e'').mpr (Or.inr ⟨hx, ho.found⟩), ho.signature, ho.notClosing⟩
  have hkind : e'.notifySignal = e.notifySignal := by
    rw [IEvent.notifySignal, IEvent.notifySignal, htype]
  constructor
  · exact hpen
  · intro p x hx
    by_cases hne : x = event
    · subst hne
      obtain ⟨rfl, hlin, hsig, hnot⟩ := (hself p).mp hx
      exact ⟨e', (hopen x e').mpr (Or.inl ⟨rfl, rfl, he, hsig, hnot⟩), htpl, hlin⟩
    · obtain ⟨e'', ho, hrest⟩ := h.queued p x ((hoth x p hne).mp hx)
      grind
  · exact hnod
  · intro x e'' ho hlin
    rcases (hopen x e'').mp ho with ⟨rfl, rfl, ho'⟩ | ⟨hne, ho'⟩
    · exact (hself _).mpr ⟨htpl, hlin, ho'.signature, ho'.notClosing⟩
    · exact (hoth x _ hne).mpr (h.linked x e'' ho' hlin)
  · intro x e'' ho hsig hcnt
    rcases (hopen x e'').mp ho with ⟨rfl, rfl, ho'⟩ | ⟨hne, ho'⟩
    · refine (hsigna (hkind ▸ hsig) hcnt).imp_left fun hlin => ?_
      exact (hself _).mpr ⟨htpl, hlin, ho'.signature, ho'.notClosing⟩
    · exact (h.signalled x e'' ho' hsig hcnt).imp (hoth x _ hne).mpr (hkeep x hne)
  · intro x e'' ho hsig
    rw [hlist]
    rcases (hopen x e'').mp ho with ⟨rfl, rfl, ho'⟩ | ⟨-, ho'⟩
    · exact h.listed x e ho' (hkind ▸ hsig)
    · exact h.listed x e'' ho' hsig
  · intro x hx
    obtain ⟨e'', ho⟩ := h.listedOpen x (hlist ▸ hx)
    by_cases hne : x = event
    · subst hne
      obtain rfl : e = e'' := Option.some.inj (he.symm.trans ho.found)
      exact ⟨e', (hopen x e').mpr (Or.inl ⟨rfl, rfl, ho⟩)⟩
    grind
  · rw [hlist]
    exact h.signalNodup
  · intro x e'' hx
    rcases (hat x e'').mp hx with ⟨-, rfl⟩ | ⟨-, hx⟩
    · exact htpl ▸ h.below event e he
    · exact h.below x e'' hx
  · intro x e'' hx
    rw [hfre]
    rcases (hat x e'').mp hx with ⟨rfl, -⟩ | ⟨-, hx⟩
    · exact h.fresh x e he
    · exact h.fresh x e'' hx

lemma update_of_some (f : IEvent → IEvent) (he : s.events event = some e) :
    s.update event f = { s with events := Function.update s.events event (some (f e)) } := by
  rw [State.update, he]
  rfl

lemma Queues.setCount {signalling' : EventId → Prop} (h : Queues s closing signalling)
    (he : s.events event = some e) (n : ℕ)
    (hn : e.notifySignal = true → n ≠ 0 → e.linked = true ∨ signalling' event)
    (hkeep : ∀ x, signalling x → signalling' x) :
    Queues (s.update event ({ · with signalCount := n })) closing signalling' := by
  rw [update_of_some _ he]
  exact h.change he rfl rfl rfl rfl rfl rfl h.pending h.nodup (h.mem_queue_iff he)
    (fun x p _ => Iff.rfl) hn fun x _ => hkeep x

/-! ### Queueing -/

lemma getLsbD_bit {p q : Tpl} (hp : p < 64) : (bit p).getLsbD q = decide (q = p) := by
  rw [bit, BitVec.getLsbD_shiftLeft, BitVec.getLsbD_one]
  grind

lemma coreNotifyEvent_eq (h : Queues s closing signalling) (he : s.events event = some e) :
    coreNotifyEvent s event = { s with
      events := Function.update s.events event (some { e with linked := true })
      queue := Function.update s.queue e.notifyTpl ((s.queue e.notifyTpl).erase event ++ [event])
      pending := s.pending ||| bit e.notifyTpl } := by
  simp [coreNotifyEvent, he, h.removeNotify he, State.update, Option.map_some, Function.update_self,
    Function.update_idem]

lemma Queues.notify (h : Queues s closing signalling) (hopen : s.Open closing event e) :
    Queues (coreNotifyEvent s event) closing (fun x => signalling x ∧ x ≠ event) := by
  have he := hopen.found
  rw [coreNotifyEvent_eq h he]
  have hbel : e.notifyTpl < 64 := Nat.lt_trans (h.below event e he) (by decide)
  have hque : ∀ x p, x ∈ Function.update s.queue e.notifyTpl
      ((s.queue e.notifyTpl).erase event ++ [event]) p ↔
        x ≠ event ∧ x ∈ s.queue p ∨ x = event ∧ p = e.notifyTpl := by
    intro x p
    by_cases hp : p = e.notifyTpl
    · subst hp
      rw [Function.update_self, List.mem_append, (h.nodup _).mem_erase_iff, List.mem_singleton]
      simp
    · rw [Function.update_of_ne hp]
      constructor
      · intro hx
        refine Or.inl ⟨?_, hx⟩
        rintro rfl
        exact hp ((h.mem_queue_iff he p).mp hx).1
      · rintro (⟨-, hx⟩ | ⟨-, hx⟩)
        · exact hx
        · exact absurd hx hp
  refine h.change he rfl rfl rfl rfl rfl rfl (fun p hp => ?_) (fun p => ?_) (fun p => ?_)
    (fun x p hne => ?_) (fun _ _ => Or.inl rfl) (fun x hne hx => ⟨hx, hne⟩)
  · dsimp only at hp ⊢
    rw [BitVec.getLsbD_or, getLsbD_bit hbel]
    by_cases htpl : p = e.notifyTpl
    · simp [htpl]
    · rw [Function.update_of_ne htpl] at hp
      rw [h.pending p hp]
      rfl
  · dsimp only
    by_cases htpl : p = e.notifyTpl
    · rw [htpl, Function.update_self]
      refine List.nodup_append.mpr ⟨(h.nodup _).erase _, List.pairwise_singleton _ _, ?_⟩
      intro x hx y hy heq
      rw [List.mem_singleton] at hy
      exact ((h.nodup _).mem_erase_iff.mp hx).1 (heq.trans hy)
    · rw [Function.update_of_ne htpl]
      exact h.nodup p
  · simp [hque, hopen.signature, hopen.notClosing]
  · dsimp only
    rw [hque]
    simp [hne]

lemma coreNotifyEvent_open (h : Queues s closing signalling) (hopen : s.Open closing event e)
    {x : EventId} {e' : IEvent} (hx : s.Open closing x e') :
    ∃ e'', (coreNotifyEvent s event).Open closing x e'' ∧ e''.eventGroup = e'.eventGroup := by
  rw [coreNotifyEvent_eq h hopen.found]
  by_cases hne : x = event
  · subst hne
    obtain rfl : e = e' := Option.some.inj (hopen.found.symm.trans hx.found)
    exact ⟨{ e with linked := true }, ⟨Function.update_self .., hx.signature, hx.notClosing⟩, rfl⟩
  · exact ⟨e', ⟨(Function.update_of_ne hne ..).trans hx.found, hx.signature, hx.notClosing⟩, rfl⟩

lemma Queues.notifySignalLoop {group : EventGroup} {list : List EventId}
    (h : Queues s closing signalling) (hlist : ∀ x ∈ list, ∃ e, s.Open closing x e) :
    Queues (notifySignalLoop group s list) closing (fun x => signalling x ∧
      ∀ e, x ∈ list → s.Open closing x e → e.eventGroup ≠ group) := by
  induction list generalizing s signalling with
  | nil =>
    refine h.weaken fun x hx => ⟨hx, fun e hmem => ?_⟩
    cases hmem
  | cons event rest ih =>
    obtain ⟨e, hopen⟩ := hlist event List.mem_cons_self
    have hrest : ∀ x ∈ rest, ∃ e, s.Open closing x e :=
      fun x hx => hlist x (List.mem_cons_of_mem _ hx)
    rw [Event.notifySignalLoop, List.foldl_cons, hopen.found, Option.any_some]
    by_cases hgro : e.eventGroup = group
    · rw [if_pos (by simpa using hgro)]
      have hres' : ∀ x ∈ rest, ∃ e, (coreNotifyEvent s event).Open closing x e := by
        intro x hx
        obtain ⟨e', he'⟩ := hrest x hx
        obtain ⟨e'', he'', -⟩ := coreNotifyEvent_open h hopen he'
        exact ⟨e'', he''⟩
      refine (ih (h.notify hopen) hres').weaken ?_
      rintro x ⟨⟨hx, hne⟩, hall⟩
      refine ⟨hx, fun e' hmem he' => ?_⟩
      obtain ⟨e'', he'', heq⟩ := coreNotifyEvent_open h hopen he'
      grind
    · rw [if_neg (by simpa using hgro)]
      refine (ih h hrest).weaken ?_
      rintro x ⟨hx, hall⟩
      refine ⟨hx, fun e' hmem he' => ?_⟩
      rcases List.mem_cons.mp hmem with rfl | hmem
      · obtain rfl : e = e' := Option.some.inj (hopen.found.symm.trans he'.found)
        exact hgro
      · exact hall e' hmem he'

lemma Queues.dequeue {p : Tpl} {rest : List EventId} (h : Queues s closing signalling)
    (hque : s.queue p = event :: rest) :
    Queues (dequeue s p event rest) closing signalling := by
  obtain ⟨e, hopen, rfl, hlin⟩ := h.queued p event (hque ▸ List.mem_cons_self)
  have he := hopen.found
  have hnod := h.nodup e.notifyTpl
  rw [hque, List.nodup_cons] at hnod
  rw [Event.dequeue, update_of_some _ he]
  refine h.change he rfl rfl rfl rfl rfl rfl (fun p hp => ?_) (fun p => ?_) (fun p => ?_)
    (fun x p hne => ?_) (fun hsig hcnt => ?_) (fun x _ hx => hx)
  · dsimp only at hp ⊢
    by_cases htpl : p = e.notifyTpl
    · exact h.pending p (by rw [htpl, hque]; exact List.cons_ne_nil _ _)
    · rw [Function.update_of_ne htpl] at hp
      exact h.pending p hp
  · dsimp only
    by_cases htpl : p = e.notifyTpl
    · rw [htpl, Function.update_self]
      exact hnod.2
    · rw [Function.update_of_ne htpl]
      exact h.nodup p
  · dsimp only
    by_cases htpl : p = e.notifyTpl
    · rw [htpl, Function.update_self]
      simp [hnod.1]
    · rw [Function.update_of_ne htpl]
      simp [htpl, h.mem_queue_iff he]
  · grind
  · simp [hsig] at hcnt

lemma dequeue_open {p : Tpl} {rest : List EventId} (h : s.Open closing event e) :
    ∃ e', (dequeue s p event rest).Open closing event e' := by
  rw [Event.dequeue, update_of_some _ h.found]
  exact ⟨_, Function.update_self .., h.signature, h.notClosing⟩

lemma Queues.clear {p : Tpl} (h : Queues s closing signalling) (hque : s.queue p = []) :
    Queues { s with pending := s.pending &&& ~~~(bit p) } closing signalling := by
  refine ⟨fun q hq => ?_, ?_, h.nodup, ?_, ?_, ?_, ?_, h.signalNodup, h.below, h.fresh⟩
  · have hne : q ≠ p := fun heq => hq (heq ▸ hque)
    have hpen := h.pending q hq
    grind [getLsbD_bit, bit, Nat.lt_of_lt_of_le]
  · intro q x hx
    obtain ⟨e, he, hrest⟩ := h.queued q x hx
    exact ⟨e, ⟨he.found, he.signature, he.notClosing⟩, hrest⟩
  · exact fun x e hx => h.linked x e ⟨hx.found, hx.signature, hx.notClosing⟩
  · exact fun x e hx => h.signalled x e ⟨hx.found, hx.signature, hx.notClosing⟩
  · exact fun x e hx => h.listed x e ⟨hx.found, hx.signature, hx.notClosing⟩
  · intro x hx
    obtain ⟨e, he⟩ := h.listedOpen x hx
    exact ⟨e, he.found, he.signature, he.notClosing⟩

/-! ### Creating and closing -/

lemma Queues.insert (h : Queues s closing signalling) (hfre : ¬closing s.fresh)
    (hsign : e.signature = true) (hcnt : e.signalCount = 0) (hlin : e.linked = false)
    (hbel : e.notifyTpl < tplHighLevel) (heve : s'.events = Function.update s.events s.fresh
      (some e)) (hnext : s'.fresh = s.fresh + 1) (hque : s'.queue = s.queue)
    (hpen : s'.pending = s.pending) (hlist : s'.signalQueue =
      if e.notifySignal then s.fresh :: s.signalQueue else s.signalQueue) :
    Queues s' closing signalling := by
  have hnone : s.events s.fresh = none := by
    by_contra hsome
    obtain ⟨e', he'⟩ := Option.ne_none_iff_exists'.mp hsome
    exact Nat.lt_irrefl _ (h.fresh s.fresh e' he')
  have hat : ∀ x e', s'.events x = some e' ↔
      x = s.fresh ∧ e = e' ∨ x ≠ s.fresh ∧ s.events x = some e' := by
    intro x e'
    rw [heve]
    by_cases hx : x = s.fresh
    · subst hx
      simp
    · simp [hx]
  have hopen : ∀ x e', s'.Open closing x e' ↔
      x = s.fresh ∧ e = e' ∨ x ≠ s.fresh ∧ s.Open closing x e' := by
    intro x e'
    constructor
    · rintro ⟨hfnd, hsig, hnot⟩
      exact ((hat x e').mp hfnd).imp_right fun h => ⟨h.1, h.2, hsig, hnot⟩
    · rintro (⟨rfl, rfl⟩ | ⟨hx, ho⟩)
      · exact ⟨(hat s.fresh e).mpr (Or.inl ⟨rfl, rfl⟩), hsign, hfre⟩
      · exact ⟨(hat x e').mpr (Or.inr ⟨hx, ho.found⟩), ho.signature, ho.notClosing⟩
  have hold : ∀ x e', s.Open closing x e' → s'.Open closing x e' := by
    refine fun x e' ho => (hopen x e').mpr (Or.inr ⟨?_, ho⟩)
    rintro rfl
    have := ho.found
    rw [hnone] at this
    cases this
  have hmem : ∀ x, x ∈ s'.signalQueue ↔ x ∈ s.signalQueue ∨ x = s.fresh ∧ e.notifySignal := by
    grind
  refine ⟨by rw [hque, hpen]; exact h.pending, fun p x hx => ?_,
    by rw [hque]; exact h.nodup,
    fun x e' ho hl => ?_, fun x e' ho hsig hc => ?_, fun x e' ho hsig => ?_, fun x hx => ?_, ?_,
    fun x e' hx => ?_, fun x e' hx => ?_⟩
  · obtain ⟨e', ho, hrest⟩ := h.queued p x (hque ▸ hx)
    exact ⟨e', hold x e' ho, hrest⟩
  · rw [hque]
    rcases (hopen x e').mp ho with ⟨-, rfl⟩ | ⟨-, ho⟩
    · rw [hlin] at hl
      cases hl
    · exact h.linked x e' ho hl
  · rw [hque]
    rcases (hopen x e').mp ho with ⟨-, rfl⟩ | ⟨-, ho⟩
    · exact absurd hcnt hc
    · exact h.signalled x e' ho hsig hc
  · rw [hmem]
    rcases (hopen x e').mp ho with ⟨rfl, rfl⟩ | ⟨-, ho⟩
    · exact Or.inr ⟨rfl, hsig⟩
    · exact Or.inl (h.listed x e' ho hsig)
  · rcases (hmem x).mp hx with hx | ⟨rfl, -⟩
    · obtain ⟨e', ho⟩ := h.listedOpen x hx
      exact ⟨e', hold x e' ho⟩
    · exact ⟨e, (hopen s.fresh e).mpr (Or.inl ⟨rfl, rfl⟩)⟩
  · rw [hlist]
    split_ifs
    · refine List.nodup_cons.mpr ⟨fun hx => ?_, h.signalNodup⟩
      obtain ⟨e', ho⟩ := h.listedOpen s.fresh hx
      have := ho.found
      rw [hnone] at this
      cases this
    · exact h.signalNodup
  · rcases (hat x e').mp hx with ⟨-, rfl⟩ | ⟨-, hx⟩
    · exact hbel
    · exact h.below x e' hx
  · rw [hnext]
    rcases (hat x e').mp hx with ⟨rfl, -⟩ | ⟨-, hx⟩
    · exact Nat.lt_succ_self _
    · exact (h.fresh x e' hx).trans (Nat.lt_succ_self _)

lemma Queues.unlink (h : Queues s closing signalling) (he : s.events event = some e)
    (heve : s'.events = s.events) (hfre : s'.fresh = s.fresh)
    (hque : s'.queue = Function.update s.queue e.notifyTpl
      ((s.queue e.notifyTpl).erase event)) (hpen : s'.pending = s.pending)
    (hlist : s'.signalQueue = s.signalQueue.erase event) :
    Queues s' (fun x => closing x ∨ x = event) signalling := by
  have hmem : ∀ x p, x ∈ s'.queue p ↔ x ≠ event ∧ x ∈ s.queue p := by
    intro x p
    rw [hque]
    by_cases hp : p = e.notifyTpl
    · rw [hp, Function.update_self, (h.nodup _).mem_erase_iff]
    · rw [Function.update_of_ne hp]
      refine ⟨fun hx => ⟨?_, hx⟩, fun hx => hx.2⟩
      rintro rfl
      exact hp ((h.mem_queue_iff he p).mp hx).1
  have hopen : ∀ x e', s'.Open (fun x => closing x ∨ x = event) x e' ↔
      x ≠ event ∧ s.Open closing x e' := by
    intro x e'
    constructor
    · rintro ⟨hfnd, hsig, hnot⟩
      exact ⟨fun hx => hnot (Or.inr hx), heve ▸ hfnd, hsig, fun hx => hnot (Or.inl hx)⟩
    · rintro ⟨hne, ho⟩
      exact ⟨heve ▸ ho.found, ho.signature, fun hx => hx.elim ho.notClosing hne⟩
  refine ⟨fun p hp => ?_, fun p x hx => ?_, fun p => ?_, fun x e' ho hl => ?_,
    fun x e' ho hsig hc => ?_, fun x e' ho hsig => ?_, fun x hx => ?_,
    hlist ▸ h.signalNodup.erase _, by rw [heve]; exact h.below,
    by rw [heve, hfre]; exact h.fresh⟩
  · obtain ⟨x, hx⟩ := List.exists_mem_of_ne_nil _ hp
    rw [hpen]
    exact h.pending p (List.ne_nil_of_mem ((hmem x p).mp hx).2)
  · obtain ⟨hne, hx⟩ := (hmem x p).mp hx
    obtain ⟨e', ho, hrest⟩ := h.queued p x hx
    exact ⟨e', (hopen x e').mpr ⟨hne, ho⟩, hrest⟩
  · rw [hque]
    by_cases hp : p = e.notifyTpl
    · rw [hp, Function.update_self]
      exact (h.nodup _).erase _
    · rw [Function.update_of_ne hp]
      exact h.nodup p
  · obtain ⟨hne, ho⟩ := (hopen x e').mp ho
    exact (hmem x _).mpr ⟨hne, h.linked x e' ho hl⟩
  · obtain ⟨hne, ho⟩ := (hopen x e').mp ho
    exact (h.signalled x e' ho hsig hc).imp_left fun hx => (hmem x _).mpr ⟨hne, hx⟩
  · obtain ⟨hne, ho⟩ := (hopen x e').mp ho
    rw [hlist, h.signalNodup.mem_erase_iff]
    exact ⟨hne, h.listed x e' ho hsig⟩
  · rw [hlist, h.signalNodup.mem_erase_iff] at hx
    obtain ⟨e', ho⟩ := h.listedOpen x hx.2
    exact ⟨e', (hopen x e').mpr ⟨hx.1, ho⟩⟩

lemma Queues.free (h : Queues s (· = event) signalling) :
    Queues (s.update event ({ · with signature := false })) (fun _ => False) signalling := by
  have hopen : ∀ x e', (s.update event ({ · with signature := false })).Open (fun _ => False) x e' ↔
      s.Open (· = event) x e' := by
    intro x e'
    by_cases hx : x = event
    · subst hx
      constructor
      · rintro ⟨hfnd, hsig, -⟩
        simp only [State.update, Function.update_self, Option.map_eq_some_iff] at hfnd
        obtain ⟨e'', -, rfl⟩ := hfnd
        cases hsig
      · exact fun ho => absurd rfl ho.notClosing
    · have heve : (s.update event ({ · with signature := false })).events x = s.events x := by
        simp [State.update, hx]
      exact ⟨fun ho => ⟨heve ▸ ho.found, ho.signature, hx⟩,
        fun ho => ⟨heve.trans ho.found, ho.signature, not_false⟩⟩
  have hat : ∀ x e', (s.update event ({ · with signature := false })).events x = some e' →
      ∃ e'', s.events x = some e'' ∧ e''.notifyTpl = e'.notifyTpl := by
    intro x e' hx
    by_cases hne : x = event
    · subst hne
      simp only [State.update, Function.update_self, Option.map_eq_some_iff] at hx
      obtain ⟨e'', he'', rfl⟩ := hx
      exact ⟨e'', he'', rfl⟩
    · simp only [State.update, Function.update_of_ne hne] at hx
      exact ⟨e', hx, rfl⟩
  refine ⟨h.pending, fun p x hx => ?_, h.nodup, fun x e' ho => h.linked x e' ((hopen x e').mp ho),
    fun x e' ho => h.signalled x e' ((hopen x e').mp ho),
    fun x e' ho => h.listed x e' ((hopen x e').mp ho), fun x hx => ?_, h.signalNodup,
    fun x e' hx => ?_, fun x e' hx => ?_⟩
  · obtain ⟨e', ho, hrest⟩ := h.queued p x hx
    exact ⟨e', (hopen x e').mpr ho, hrest⟩
  · obtain ⟨e', ho⟩ := h.listedOpen x hx
    exact ⟨e', (hopen x e').mpr ho⟩
  · obtain ⟨e'', he'', htpl⟩ := hat x e' hx
    exact htpl ▸ h.below x e'' he''
  · obtain ⟨e'', he'', -⟩ := hat x e' hx
    exact h.fresh x e'' he''

end Edk2.Event
