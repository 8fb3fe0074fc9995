import Edk2.Ip4.Reassemble

/-!
# Runs of the IPv4 input

Frames come in and the timer ticks. A run in which every fragment is accepted by its assemble entry
never stops, keeps every entry sound, and delivers packets that are made of received fragments.
-/

namespace Edk2.Ip4

open Net Piece

/-- What happens to the assemble table. -/
inductive Event
  /-- A frame is processed; the pool answers as given. -/
  | receive (allocations : Allocations) (frame : Frame)
  /-- A tick of the packet timer. -/
  | tick

/-- One event: the packet that is delivered to the upper layer, if there is one, and the table. -/
def step (table : AssembleTable) : Event → Except Halt (Option Packet × AssembleTable)
  | .receive allocations frame => ip4PreProcessPacket allocations table frame
  | .tick => .ok (none, ip4PacketTimerTicking table)

/-- All events: the packets that are delivered, and the table. -/
def run : AssembleTable → List Event → Except Halt (List Packet × AssembleTable)
  | table, [] => .ok ([], table)
  | table, event :: events => do
    let (result, table) ← step table event
    let (results, table) ← run table events
    return (result.toList ++ results, table)

/-- The packets that pass the checks of `Ip4PreProcessPacket`. -/
def Received (events : List Event) (packet : Packet) : Prop :=
  ∃ allocations frame, .receive allocations frame ∈ events ∧ checkFrame frame = .ok (some packet)

/-- The buffers of the frames are well-formed. -/
def FramesWellFormed (events : List Event) : Prop :=
  ∀ allocations frame, .receive allocations frame ∈ events → frame.packet.WellFormed

/-- The fragment that an event brings is accepted. -/
def EventAccepted (table : AssembleTable) : Event → Prop
  | .receive _ frame =>
    match checkFrame frame with
    | .ok (some packet) => isFragment frame → table.Accepts packet
    | _ => True
  | .tick => True

/-- Every fragment is accepted by the table it meets. -/
def RunAccepted : AssembleTable → List Event → Prop
  | _, [] => True
  | table, event :: events => EventAccepted table event ∧
    match step table event with
    | .ok (_, table') => RunAccepted table' events
    | .error _ => True

instance (table : AssembleTable) : DecidablePred (EventAccepted table)
  | .receive _ frame =>
    match h : checkFrame frame with
    | .ok (some packet) =>
      decidable_of_iff (isFragment frame → table.Accepts packet) (by simp [EventAccepted, h])
    | .ok none => isTrue (by simp [EventAccepted, h])
    | .error _ => isTrue (by simp [EventAccepted, h])
  | .tick => isTrue trivial

instance decidableRunAccepted : ∀ table events, Decidable (RunAccepted table events)
  | _, [] => isTrue trivial
  | table, event :: events =>
    match h : step table event with
    | .ok (_, table') =>
      have := decidableRunAccepted table' events
      decidable_of_iff (EventAccepted table event ∧ RunAccepted table' events)
        (by simp [RunAccepted, h])
    | .error _ => decidable_of_iff (EventAccepted table event) (by simp [RunAccepted, h])

lemma Received.mono {events events' : List Event} (hsub : events ⊆ events') {packet : Packet}
    (h : Received events packet) : Received events' packet := by
  obtain ⟨allocations, frame, hmem, hche⟩ := h
  exact ⟨allocations, frame, hsub hmem, hche⟩

lemma FramesWellFormed.mono {events events' : List Event} (hsub : events ⊆ events')
    (h : FramesWellFormed events') : FramesWellFormed events :=
  fun allocations frame hmem => h allocations frame (hsub hmem)

lemma trimTrailer_spec {packet : NetBuf} (h : packet.WellFormed) (totalLen : ℕ) :
    ∃ packet', trimTrailer packet totalLen = .ok packet' ∧ packet'.WellFormed := by
  unfold trimTrailer
  split_ifs
  · obtain ⟨packet', hrun, hwf, -⟩ := trimSound h (packet.totalSize - totalLen) false
    exact ⟨packet', by rw [hrun]; rfl, hwf⟩
  · exact ⟨packet, rfl, h⟩

lemma not_malformed {frame : Frame} {packet : NetBuf} (h : malformed frame packet = false) :
    frame.head.headLen * 4 ≤ frame.head.totalLen ∧ frame.head.totalLen = packet.totalSize ∧
      (clipInfo frame).stop ≤ ip4MaxPacketSize := by
  grind [malformed]

lemma checkFrame_spec {frame : Frame} (h : frame.packet.WellFormed) :
    ∃ result, checkFrame frame = .ok result ∧
      ∀ packet, result = some packet → packet.Sound ∧ packet.head = frame.head ∧
        packet.info = clipInfo frame := by
  obtain ⟨trimmed, htrim, hwf⟩ := trimTrailer_spec h frame.head.totalLen
  obtain ⟨buf, hhead, hbuf, hsize, -⟩ := trimSound hwf (frame.head.headLen * 4) true
  unfold checkFrame
  simp only [htrim, hhead, bind, Except.bind, pure, Except.pure]
  split_ifs with hsho hmal hfra
  · exact ⟨none, rfl, by simp⟩
  · exact ⟨none, rfl, by simp⟩
  · exact ⟨none, rfl, by simp⟩
  · refine ⟨_, rfl, ?_⟩
    intro packet hpac
    cases hpac
    obtain ⟨hle, htot, hstop⟩ := not_malformed (by simpa using hmal)
    refine ⟨⟨?_, rfl, ?_, hstop, hbuf⟩, rfl, rfl⟩
    · simp only [clipInfo]
      omega
    · simp only [clipInfo]
      omega

lemma assembled_of_whole {R : Packet → Prop} {packet : Packet} (h : packet.Sound)
    (hrec : R packet) (hsta : packet.info.start = 0)
    (hlast : ip4LastFragment packet.head.fragment) : Assembled R packet := by
  have hspan := h.span
  have hlen := h.length
  have hsame : packet.head.SamePacket packet.head := ⟨rfl, rfl, rfl, rfl⟩
  constructor
  · exact h.wellFormed
  · exact ⟨packet, hrec, hsame, hlast, by omega⟩
  · intro i hi
    refine ⟨packet, hrec, hsame, ?_, ?_⟩
    · unfold Covers
      rw [h.stop_eq, start_def]
      omega
    · rw [elementAt, start_def, hsta, Int.sub_zero, Int.toNat_natCast]
      rfl

lemma not_isFragment {frame : Frame} (h : ¬ isFragment frame = true) :
    ip4LastFragment frame.head.fragment ∧ (clipInfo frame).start = 0 := by
  grind [isFragment, ip4LastFragment]

/-! ### Runs -/

section Step

variable {R : Packet → Prop} {table : AssembleTable}

lemma ip4PreProcessPacket_spec (allocations : Allocations) {frame : Frame} (h : table.Sound R)
    (hR : ∀ p, R p → p.Sound) (hwf : frame.packet.WellFormed)
    (hrec : ∀ packet, checkFrame frame = .ok (some packet) → R packet)
    (hacc : ∀ packet, checkFrame frame = .ok (some packet) → isFragment frame →
      table.Accepts packet) :
    ∃ result table', ip4PreProcessPacket allocations table frame = .ok (result, table') ∧
      table'.Sound R ∧ ∀ p, result = some p → Assembled R p := by
  obtain ⟨checked, hche, hspec⟩ := checkFrame_spec hwf
  cases checked with
  | none =>
    refine ⟨none, table, ?_, h, by simp⟩
    simp only [ip4PreProcessPacket, hche, bind, Except.bind, pure, Except.pure]
  | some packet =>
    by_cases hfra : isFragment frame
    · obtain ⟨result, table', hrun, htab, hres⟩ := ip4Reassemble_spec allocations h hR
        (hrec packet hche) (hacc packet hche hfra)
      refine ⟨result, table', ?_, htab, hres⟩
      simp only [ip4PreProcessPacket, hche, bind, Except.bind, hfra, if_true, hrun]
    · refine ⟨some packet, table, ?_, h, ?_⟩
      · simp only [ip4PreProcessPacket, hche, bind, Except.bind, hfra, Bool.false_eq_true,
          if_false, pure, Except.pure]
      · intro p hp
        cases hp
        obtain ⟨hsou, hhead, hinfo⟩ := hspec packet rfl
        obtain ⟨hlast, hsta⟩ := not_isFragment hfra
        grind [assembled_of_whole]

lemma AssembleTable.Sound.tick (h : table.Sound R) : (ip4PacketTimerTicking table).Sound R := by
  intro index assemble hass
  obtain ⟨old, hold, heq⟩ := List.mem_filterMap.mp hass
  have hsou := h index old hold
  split_ifs at heq
  · cases heq
    exact { hsou with }
  · cases heq
    exact hsou

lemma step_spec {event : Event} (h : table.Sound R) (hR : ∀ p, R p → p.Sound)
    (hwf : FramesWellFormed [event]) (hrec : ∀ p, Received [event] p → R p)
    (hacc : EventAccepted table event) :
    ∃ result table', step table event = .ok (result, table') ∧ table'.Sound R ∧
      ∀ p, result = some p → Assembled R p := by
  cases event with
  | receive allocations frame =>
    apply ip4PreProcessPacket_spec allocations h hR (hwf allocations frame (by simp))
    · intro packet hche
      exact hrec packet ⟨allocations, frame, by simp, hche⟩
    grind [EventAccepted]
  | tick => exact ⟨none, _, rfl, h.tick, by simp⟩

lemma run_spec (hR : ∀ p, R p → p.Sound) (events : List Event) (h : table.Sound R)
    (hwf : FramesWellFormed events) (hrec : ∀ p, Received events p → R p)
    (hacc : RunAccepted table events) :
    ∃ results table', run table events = .ok (results, table') ∧ table'.Sound R ∧
      ∀ p ∈ results, Assembled R p := by
  induction events generalizing table with
  | nil => exact ⟨[], table, rfl, h, by simp⟩
  | cons event events ih =>
    have hfst : [event] ⊆ event :: events := by simp
    have hrest : events ⊆ event :: events := by simp
    obtain ⟨hacc, hfol⟩ := hacc
    obtain ⟨result, table₁, hstep, hsou, hresu⟩ := step_spec h hR (hwf.mono hfst)
      (fun p hp => hrec p (hp.mono hfst)) hacc
    rw [hstep] at hfol
    obtain ⟨results, table₂, hrun, hsou₂, hres⟩ := ih hsou (hwf.mono hrest)
      (fun p hp => hrec p (hp.mono hrest)) hfol
    refine ⟨result.toList ++ results, table₂, ?_, hsou₂, ?_⟩
    · simp only [run, hstep, hrun, bind, Except.bind, pure, Except.pure]
    grind

end Step

lemma Received.sound {events : List Event} {packet : Packet} (hwf : FramesWellFormed events)
    (h : Received events packet) : packet.Sound := by
  obtain ⟨allocations, frame, hmem, hche⟩ := h
  obtain ⟨result, hres, hspec⟩ := checkFrame_spec (hwf allocations frame hmem)
  grind

/-- In a run in which every fragment is accepted no assertion fails, every assemble entry stays
sound, and every packet that is delivered has the length that a last fragment says and bytes of
received fragments. -/
theorem reassembly_sound (events : List Event) (hwf : FramesWellFormed events)
    (haccepted : RunAccepted ip4InitAssembleTable events) :
    ∃ results table, run ip4InitAssembleTable events = .ok (results, table) ∧
      table.Sound (Received events) ∧ ∀ p ∈ results, Assembled (Received events) p := by
  apply run_spec (fun p hp => Received.sound hwf hp) events _ hwf (fun p hp => hp) haccepted
  intro index assemble hassemble
  cases hassemble

/-- A frame with the given data behind a head of 20 bytes. -/
def fragmentFrame (fragment : BitVec 16) (data : List UInt8) : Frame where
  packet :=
    let bytes := List.replicate 20 0 ++ data
    ⟨[netbufSetBlockOp bytes bytes.length], bytes.length⟩
  head := ⟨4, 5, 20 + data.length, 1, fragment, 17, 2, 3⟩
  linkFlag := 0
  checksumValid := true
  castType := 1
  optionValid := true

lemma wellFormed_fragmentFrame (fragment : BitVec 16) {data : List UInt8}
    (h : data.length < 2 ^ 31) : (fragmentFrame fragment data).packet.WellFormed := by
  constructor
  · simp [fragmentFrame]
  · intro op hop
    obtain rfl := List.mem_singleton.mp hop
    exact wellFormed_netbufSetBlockOp (Nat.le_refl _)
  · simp [fragmentFrame]
  · simp only [fragmentFrame, List.length_append, List.length_replicate]
    omega

/-- The pool has memory. -/
def memory : Allocations := ⟨true, some fun _ => 0, true, true⟩

/-- The last fragment comes first. -/
def twoFragments : List Event :=
  [.receive memory (fragmentFrame 0x0001 [9, 10]), .tick,
    .receive memory (fragmentFrame 0x2000 [1, 2, 3, 4, 5, 6, 7, 8])]

lemma framesWellFormed_twoFragments : FramesWellFormed twoFragments := by
  intro allocations frame hmem
  simp only [twoFragments, List.mem_cons, Event.receive.injEq, reduceCtorEq, List.not_mem_nil,
    or_false, false_or] at hmem
  rcases hmem with ⟨rfl, rfl⟩ | ⟨rfl, rfl⟩
  · exact wellFormed_fragmentFrame _ (by decide)
  · exact wellFormed_fragmentFrame _ (by decide)

theorem reassembly_sound_twoFragments :
    ∃ results table, run ip4InitAssembleTable twoFragments = .ok (results, table) ∧
      table.Sound (Received twoFragments) ∧ ∀ p ∈ results, Assembled (Received twoFragments) p :=
  reassembly_sound twoFragments framesWellFormed_twoFragments (by decide)

example : (run ip4InitAssembleTable twoFragments).map (fun r => r.1.map fun p => p.buf.bytes) =
    .ok [[1, 2, 3, 4, 5, 6, 7, 8, 9, 10]] := by decide

/-- An empty first fragment, and once more. -/
def emptyFirstTwice : List Event :=
  [.receive memory (fragmentFrame 0x2000 []), .receive memory (fragmentFrame 0x2000 [])]

/-- Bytes 16 to 31, and then bytes 8 to 23. -/
def overlapAtTail : List Event :=
  [.receive memory (fragmentFrame 0x2002 (List.replicate 16 1)),
    .receive memory (fragmentFrame 0x2001 (List.replicate 16 2))]

/-- A second empty first fragment fails the assertion that there is no head yet; a fragment that
overlaps the next one is emptied, with a length that grows. -/
theorem reassembly_unsound :
    (FramesWellFormed emptyFirstTwice ∧ run ip4InitAssembleTable emptyFirstTwice = .error .assert) ∧
    FramesWellFormed overlapAtTail ∧ ∃ results table,
      run ip4InitAssembleTable overlapAtTail = .ok (results, table) ∧
      ¬ table.Sound (Received overlapAtTail) ∧
      ∃ index, ∃ assemble ∈ table.bucket index, ∃ p ∈ assemble.fragments,
        p.info.length = 24 ∧ p.buf.totalSize = 0 := by
  refine ⟨⟨?_, rfl⟩, ?_, _, _, rfl, ?_⟩
  · intro allocations frame hmem
    grind [emptyFirstTwice, Event.receive.injEq,
      wellFormed_fragmentFrame]
  · intro allocations frame hmem
    grind [overlapAtTail, Event.receive.injEq,
      wellFormed_fragmentFrame]
  · have hwrong : ∀ table : AssembleTable, (∃ index, ∃ assemble ∈ table.bucket index,
        ∃ p ∈ assemble.fragments, p.info.length = 24 ∧ p.buf.totalSize = 0) →
        ¬ table.Sound (Received overlapAtTail) := by
      rintro table ⟨index, assemble, hassemble, p, hp, hlength, hsize⟩ hsound
      have heq := ((hsound index assemble hassemble).sound p hp).length
      omega
    apply (and_iff_right_of_imp (hwrong _)).mpr
    exact ⟨ip4AssembleHash (fragmentFrame 0x2002 []).head, by decide⟩

end Edk2.Ip4
