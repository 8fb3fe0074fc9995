import Edk2.Event.NotifyQueue

/-!
# The calls under way

Nothing is pending above the current priority, except while a call restores it. So the calls that
release the lock and go on with an event they have looked up are not disturbed: nothing is
dispatched before they go on.
-/

namespace Edk2.Event

variable {s s' : State} {rest : List Frame} {f : Frame} {t : Tpl} {x : EventId}

/-- The code that runs under this stack is a notification function, or called by nobody. -/
def Client (stack : List Frame) : Prop := ∀ f rest, stack = f :: rest → ∃ x t, f = .notify x t

/-- A dispatch is made by a call that restores a lower priority. -/
def Restoring (p : Tpl) (stack : List Frame) : Prop :=
  ∃ t rest, stack = .restore t :: rest ∧ t < p

/-- The calls under way, none of which holds on to an event that it has looked up. -/
def Deep : List Frame → Prop
  | [] => True
  | .notify _ p :: rest => (∃ rest', rest = .dispatch p false :: rest') ∧ Deep rest
  | .dispatch p _ :: rest => Restoring p rest ∧ Deep rest
  | .restore t :: rest => (∀ p first rest', rest = .dispatch p first :: rest' → t ≤ p) ∧ Deep rest
  | .signalEnd :: rest => Client rest ∧ Deep rest
  | .checkClear _ :: rest => Client rest ∧ Deep rest
  | .call _ _ :: _ => False
  | .signalList _ :: _ => False
  | .closeUnlink _ :: _ => False
  | .closeFree _ :: _ => False

/-- A call that goes on with an event, over the calls under way. -/
def Brief (rest : List Frame) (t : Tpl) : Frame → Prop
  | .call p _ => t = p ∧ Restoring p rest ∧ Deep rest
  | .signalList _ => Client rest ∧ Deep rest
  | .closeUnlink _ => Client rest ∧ Deep rest
  | .closeFree _ => Client rest ∧ Deep rest
  | _ => False

lemma Brief.deep (h : Brief rest t f) : Deep rest := by
  cases f with
  | call p y => exact h.2.2
  | signalList y => exact h.2
  | closeUnlink y => exact h.2
  | closeFree y => exact h.2
  | notify y p => exact h.elim
  | restore p => exact h.elim
  | dispatch p first => exact h.elim
  | signalEnd => exact h.elim
  | checkClear y => exact h.elim

/-- The frames that go on with an event. -/
def Frame.brief : Frame → Bool
  | .call _ _ => true
  | .signalList _ => true
  | .closeUnlink _ => true
  | .closeFree _ => true
  | _ => false

lemma Deep.tail {stack : List Frame} (h : Deep (f :: stack)) : Deep stack ∧ f.brief = false := by
  cases f with
  | notify y p => exact ⟨h.2, rfl⟩
  | restore p => exact ⟨h.2, rfl⟩
  | dispatch p first => exact ⟨h.2, rfl⟩
  | signalEnd => exact ⟨h.2, rfl⟩
  | checkClear y => exact ⟨h.2, rfl⟩
  | call p y => exact h.elim
  | signalList y => exact h.elim
  | closeUnlink y => exact h.elim
  | closeFree y => exact h.elim

lemma Deep.not_mem {stack : List Frame} (h : Deep stack) (hf : f.brief = true) : f ∉ stack := by
  induction stack with
  | nil => exact List.not_mem_nil
  | cons g stack ih =>
    rw [List.mem_cons, not_or]
    refine ⟨?_, ih h.tail.1⟩
    rintro rfl
    rw [h.tail.2] at hf
    cases hf

lemma Client.deep_restore (h : Client rest) (hdeep : Deep rest) : Deep (.restore t :: rest) := by
  refine ⟨fun p first rest' heq => ?_, hdeep⟩
  obtain ⟨y, t', hy⟩ := h _ _ heq
  cases hy

lemma deep_restore (hf : ∀ p first, f ≠ .dispatch p first) (h : Deep (f :: rest)) :
    Deep (.restore t :: f :: rest) :=
  ⟨fun p first _ heq => absurd (List.cons.inj heq).1 (hf p first), h⟩

/-! ### The invariant -/

/-- Nothing is pending above the priority. -/
def State.Clean (s : State) (t : Tpl) : Prop := ∀ p, t < p → s.pending.getLsbD p = false

/-- The event is being closed. -/
def State.closing (s : State) (x : EventId) : Prop := .closeFree x ∈ s.stack

/-- The group of the event is being signalled. -/
def State.signalling (s : State) (x : EventId) : Prop := .signalList x ∈ s.stack

inductive Stacked (s : State) : Prop
  | steady (hdeep : Deep s.stack)
    (hclean : (∀ t rest, s.stack ≠ .restore t :: rest) → s.Clean s.tpl)
    (htop : ∀ p first rest, s.stack = .dispatch p first :: rest → s.tpl ≤ p)
  | brief (f : Frame) (rest : List Frame) (hstack : s.stack = f :: rest)
    (hbrief : Brief rest s.tpl f) (hclean : s.Clean s.tpl)
  | returning (t : Tpl) (f : Frame) (rest : List Frame)
    (hstack : s.stack = .restore t :: f :: rest) (hbrief : Brief rest t f) (hclean : s.Clean t)

/-- The event that a call goes on with. -/
structure Held (s : State) (closing : EventId → Prop) (f : Frame) : Prop where
  call : ∀ p x, f = .call p x → ∃ e, s.Open closing x e
  signal : ∀ x, f = .signalList x → ∃ e, s.Open closing x e ∧ e.notifySignal = true

lemma Held.congr {closing : EventId → Prop} (h : Held s closing f)
    (heve : s'.events = s.events) : Held s' closing f where
  call p x heq := by
    obtain ⟨e, he⟩ := h.call p x heq
    exact ⟨e, heve ▸ he.found, he.signature, he.notClosing⟩
  signal x heq := by
    obtain ⟨e, he, hsig⟩ := h.signal x heq
    exact ⟨e, ⟨heve ▸ he.found, he.signature, he.notClosing⟩, hsig⟩

structure Inv (s : State) : Prop where
  queues : Queues s s.closing s.signalling
  stacked : Stacked s
  held : ∀ f ∈ s.stack, Held s s.closing f

lemma inv_initial : Inv State.initial where
  queues := by
    have hclo : State.initial.closing = fun _ => False := by
      funext x
      simp [State.closing, State.initial]
    have hsig : State.initial.signalling = fun _ => False := by
      funext x
      simp [State.signalling, State.initial]
    rw [hclo, hsig]
    exact queues_initial
  stacked := .steady trivial (fun _ p _ => by simp [State.initial])
    (fun p first rest h => by cases h)
  held f hf := by cases hf

lemma Deep.closing (h : Deep s.stack) : s.closing = fun _ => False := by
  funext x
  exact eq_false (h.not_mem rfl)

lemma Deep.signalling (h : Deep s.stack) : s.signalling = fun _ => False := by
  funext x
  exact eq_false (h.not_mem rfl)

lemma held_of_not_brief {closing : EventId → Prop} (h : f.brief = false) : Held s closing f where
  call p x heq := by
    rw [heq] at h
    cases h
  signal x heq := by
    rw [heq] at h
    cases h

lemma Deep.held {closing : EventId → Prop} {stack : List Frame} (h : Deep stack) :
    ∀ f ∈ stack, Held s closing f := by
  intro f hf
  cases hbri : f.brief with
  | true => exact absurd hf (h.not_mem hbri)
  | false => exact held_of_not_brief hbri

lemma inv_of_deep (hdeep : Deep s.stack) (hq : Queues s (fun _ => False) (fun _ => False))
    (hcle : (∀ t rest, s.stack ≠ .restore t :: rest) → s.Clean s.tpl)
    (htop : ∀ p first rest, s.stack = .dispatch p first :: rest → s.tpl ≤ p) : Inv s where
  queues := by
    rw [hdeep.closing, hdeep.signalling]
    exact hq
  stacked := .steady hdeep hcle htop
  held := hdeep.held

lemma Inv.queues_of_deep (h : Inv s) (hdeep : Deep s.stack) :
    Queues s (fun _ => False) (fun _ => False) := by
  have := h.queues
  rwa [hdeep.closing, hdeep.signalling] at this

lemma closing_cons (hdeep : Deep rest) (hsta : s.stack = f :: rest) :
    s.closing = fun x => f = .closeFree x := by
  funext x
  have hnot : Frame.closeFree x ∉ rest := hdeep.not_mem rfl
  rw [State.closing, hsta, List.mem_cons, eq_comm]
  simp [hnot, eq_comm]

lemma signalling_cons (hdeep : Deep rest) (hsta : s.stack = f :: rest) :
    s.signalling = fun x => f = .signalList x := by
  funext x
  have hnot : Frame.signalList x ∉ rest := hdeep.not_mem rfl
  rw [State.signalling, hsta, List.mem_cons]
  simp [hnot, eq_comm]

lemma closing_restore (hdeep : Deep rest) (hsta : s.stack = .restore t :: f :: rest) :
    s.closing = fun x => f = .closeFree x := by
  funext x
  have hnot : Frame.closeFree x ∉ rest := hdeep.not_mem rfl
  simp [State.closing, hsta, List.mem_cons, hnot, eq_comm]

lemma signalling_restore (hdeep : Deep rest) (hsta : s.stack = .restore t :: f :: rest) :
    s.signalling = fun x => f = .signalList x := by
  funext x
  have hnot : Frame.signalList x ∉ rest := hdeep.not_mem rfl
  simp [State.signalling, hsta, List.mem_cons, hnot, eq_comm]

lemma inv_of_returning (hsta : s.stack = .restore t :: f :: rest) (hbri : Brief rest t f)
    (hcle : s.Clean t)
    (hq : Queues s (fun x => f = .closeFree x) (fun x => f = .signalList x))
    (hheld : Held s (fun x => f = .closeFree x) f) : Inv s where
  queues := by
    rw [closing_restore hbri.deep hsta, signalling_restore hbri.deep hsta]
    exact hq
  stacked := .returning t f rest hsta hbri hcle
  held g hg := by
    rw [closing_restore hbri.deep hsta]
    rw [hsta] at hg
    rcases List.mem_cons.mp hg with rfl | hg
    · exact held_of_not_brief rfl
    · rcases List.mem_cons.mp hg with rfl | hg
      · exact hheld
      · exact hbri.deep.held g hg

lemma inv_of_brief (hsta : s.stack = f :: rest) (hbri : Brief rest s.tpl f)
    (hcle : s.Clean s.tpl)
    (hq : Queues s (fun x => f = .closeFree x) (fun x => f = .signalList x))
    (hheld : Held s (fun x => f = .closeFree x) f) : Inv s where
  queues := by
    rw [closing_cons hbri.deep hsta, signalling_cons hbri.deep hsta]
    exact hq
  stacked := .brief f rest hsta hbri hcle
  held g hg := by
    rw [closing_cons hbri.deep hsta]
    rw [hsta] at hg
    rcases List.mem_cons.mp hg with rfl | hg
    · exact hheld
    · exact hbri.deep.held g hg

end Edk2.Event
