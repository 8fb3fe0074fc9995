import Edk2.Ip4.Model
import Edk2.Lib.Pieces
import Edk2.Net.BufferRefine
import Mathlib.Data.List.TakeWhile

/-!
# Reassembly of IPv4 packets

A fragment is a piece of a packet. The fragments of an assemble entry are in order, each is cut from
a received fragment, and the length count of the entry is the sum of their lengths. One step keeps
that if the new fragment is not trimmed at its tail and does not come after an empty first fragment:
the tail trim of `Ip4TrimPacket` computes a negative length.
-/

namespace Edk2.Ip4

open Net Piece

/-- A fragment holds the bytes of the packet from its start on. -/
instance : Piece Packet UInt8 where
  start packet := packet.info.start
  data packet := packet.buf.bytes

variable {packet this whole : Packet} {R : Packet → Prop}

/-! ### Fragments -/

/-- The information about a fragment agrees with its buffer. -/
structure Packet.Sound (packet : Packet) : Prop where
  nonneg : 0 ≤ packet.info.start
  span : packet.info.start + packet.info.length = packet.info.stop
  length : packet.info.length = packet.buf.totalSize
  le : packet.info.stop ≤ ip4MaxPacketSize
  wellFormed : packet.buf.WellFormed

lemma start_def (packet : Packet) : start packet = packet.info.start := rfl

lemma Packet.Sound.data_length (h : packet.Sound) :
    ((data packet).length : ℤ) = packet.info.length := by
  rw [h.length]
  exact congrArg Nat.cast h.wellFormed.length_bytes

lemma Packet.Sound.stop_eq (h : packet.Sound) : stop packet = packet.info.stop := by
  unfold stop
  rw [h.data_length, start_def, h.span]

/-- What is left of a packet after trimming. -/
structure Packet.CutFrom (packet whole : Packet) : Prop where
  head_eq : packet.head = whole.head
  start_le : whole.info.start ≤ packet.info.start
  stop_le : packet.info.stop ≤ whole.info.stop
  elementAt_eq : ∀ i, Covers packet i → elementAt packet i = elementAt whole i

lemma Packet.CutFrom.refl (packet : Packet) : packet.CutFrom packet where
  head_eq := rfl
  start_le := Int.le_refl _
  stop_le := Int.le_refl _
  elementAt_eq _ _ := rfl

lemma toUint32_of_lt {n : ℤ} (h : 0 ≤ n) (hlt : n < 2 ^ 32) : toUint32 n = n.toNat := by
  rw [toUint32, Int.emod_eq_of_lt h hlt]

lemma ip4TrimPacket_head (h : packet.Sound) {start' : ℤ} (hlt : packet.info.start < start')
    (hstop : start' < packet.info.stop) :
    ∃ this, ip4TrimPacket packet start' packet.info.stop = .ok this ∧ this.Sound ∧
      this.CutFrom packet ∧ this.info.start = start' ∧ this.info.stop = packet.info.stop := by
  have hnon := h.nonneg
  have hspan := h.span
  have hlen := h.length
  have hle : packet.info.stop ≤ 65535 := h.le
  have hcast : toUint32 (start' - packet.info.start) = (start' - packet.info.start).toNat :=
    toUint32_of_lt (by omega) (by omega)
  obtain ⟨buf, hrun, hwf, htot, hbyt⟩ :=
    trimSound h.wellFormed (start' - packet.info.start).toNat true
  have hhead : trimPacketHead packet start' = .ok
      ⟨packet.head, { packet.info with
        start := start', length := packet.info.length - (start' - packet.info.start) }, buf⟩ := by
    unfold trimPacketHead
    rw [if_pos hlt]
    simp only [hcast, hrun, bind, Except.bind, pure, Except.pure]
  refine ⟨⟨packet.head, { packet.info with
    start := start', length := packet.info.length - (start' - packet.info.start) }, buf⟩,
    ?_, ?_, ?_, rfl, rfl⟩
  · unfold ip4TrimPacket
    rw [if_neg (by simpa using hspan), if_neg (by simp only [not_not]; omega)]
    simp only [hhead, bind, Except.bind]
    exact if_neg (Int.lt_irrefl _)
  · constructor
    · exact Int.le_trans hnon (Int.le_of_lt hlt)
    · dsimp only
      omega
    · dsimp only
      omega
    · exact hle
    · exact hwf
  · constructor
    · rfl
    · exact Int.le_of_lt hlt
    · exact Int.le_refl _
    · intro i hi
      have hi : start' ≤ i := hi.1
      change buf.bytes[(i - start').toNat]? = packet.buf.bytes[(i - packet.info.start).toNat]?
      rw [hbyt, if_pos rfl, List.getElem?_drop]
      congr 1
      omega

/-- The new fragment after it is checked against the one in front of it. -/
structure Before (packet : Packet) (prev : Option Packet) (this : Packet) : Prop where
  sound : this.Sound
  cut : this.CutFrom packet
  stop_eq : this.info.stop = packet.info.stop
  start_le : ∀ node, prev = some node → node.info.stop ≤ this.info.start
  start_eq : this.info.start = packet.info.start ∨
    ∃ node, prev = some node ∧ this.info.start = node.info.stop

lemma checkBefore_spec (h : packet.Sound) (prev : Option Packet)
    (hprev : ∀ node, prev = some node → node.info.start ≤ packet.info.start) :
    (checkBefore packet prev = .ok none ∧
      ∃ node, prev = some node ∧ packet.info.stop ≤ node.info.stop) ∨
    ∃ this, checkBefore packet prev = .ok (some this) ∧ Before packet prev this := by
  cases prev with
  | none =>
    refine .inr ⟨packet, rfl, h, .refl packet, rfl, ?_, .inl rfl⟩
    intro node hnode
    cases hnode
  | some node =>
    have hsta := hprev node rfl
    by_cases hove : packet.info.start < node.info.stop
    · by_cases hins : packet.info.stop ≤ node.info.stop
      · simp [checkBefore, hove, hins]
      · obtain ⟨this, hrun, hsou, hcut, hthis, hstop⟩ :=
          ip4TrimPacket_head h hove (by omega)
        refine .inr ⟨this, ?_, hsou, hcut, hstop, ?_, .inr ⟨node, rfl, hthis⟩⟩
        · simp [checkBefore, hove, hins, hrun, Except.map]
        grind
    · refine .inr ⟨packet, ?_, h, .refl packet, rfl, ?_, .inl rfl⟩
      · simp [checkBefore, hove]
      · intro node' hnode
        cases hnode
        omega

/-- The fragments behind the new one: some are swallowed, the others stay. -/
structure Behind (this : Packet) (nodes : List Packet) (curLen : ℤ)
    (result : List Packet × ℤ × Option Packet) (swallowed : List Packet) : Prop where
  split : nodes = swallowed ++ result.1
  inside : ∀ node ∈ swallowed, node.info.stop ≤ this.info.stop
  curLen_eq : result.2.1 = curLen - (swallowed.map fun node => node.info.length).sum
  stays : (result.2.2 = none ∧ ∃ node ∈ result.1, node.info.start = this.info.start ∧
      this.info.stop < node.info.stop) ∨
    (result.2.2 = some this ∧ ∀ node ∈ result.1.head?, this.info.stop ≤ node.info.start)

lemma checkBehind_spec (this : Packet) (nodes : List Packet) (curLen : ℤ)
    (hnot : ∀ node ∈ nodes, node.info.start < this.info.stop → this.info.stop < node.info.stop →
      this.info.start = node.info.start) :
    ∃ result swallowed, checkBehind this nodes curLen = .ok result ∧
      Behind this nodes curLen result swallowed := by
  induction nodes generalizing curLen with
  | nil =>
    refine ⟨([], curLen, some this), [], rfl, rfl, by simp, by simp, .inr ⟨rfl, by simp⟩⟩
  | cons node nodes ih =>
    by_cases hins : node.info.stop ≤ this.info.stop
    · obtain ⟨result, swallowed, hrun, hbeh⟩ := ih (curLen - node.info.length)
        fun n hn => hnot n (by simp [hn])
      refine ⟨result, node :: swallowed, ?_, ?_, ?_, ?_, hbeh.stays⟩
      · rw [checkBehind, if_pos hins, hrun]
      · rw [hbeh.split, List.cons_append]
      · intro n hn
        rcases List.mem_cons.mp hn with rfl | hn
        · exact hins
        · exact hbeh.inside n hn
      · rw [hbeh.curLen_eq, List.map_cons, List.sum_cons]
        omega
    · by_cases hove : node.info.start < this.info.stop
      · have hsame := hnot node (by simp) hove (by omega)
        refine ⟨(node :: nodes, curLen, none), [], ?_, rfl, by simp, by simp, .inl ⟨rfl, ?_⟩⟩
        · simp [checkBehind, hins, hove, hsame]
        · exact ⟨node, by simp, hsame.symm, by omega⟩
      · refine ⟨(node :: nodes, curLen, some this), [], ?_, rfl, by simp, by simp, .inr ⟨rfl, ?_⟩⟩
        · rw [checkBehind, if_neg hins, if_neg hove]
        · intro n hn
          cases hn
          omega

/-! ### Entries -/

/-- Both heads are of the same packet. -/
def Ip4Head.SamePacket (head head' : Ip4Head) : Prop :=
  head.dst = head'.dst ∧ head.src = head'.src ∧ head.id = head'.id ∧ head.protocol = head'.protocol

/-- The fragments in an entry are what is left of received ones, and its counts are right. -/
structure AssembleEntry.Sound (R : Packet → Prop) (assemble : AssembleEntry) : Prop where
  inOrder : InOrder assemble.fragments
  sound : ∀ p ∈ assemble.fragments, p.Sound
  belongs : ∀ p ∈ assemble.fragments, assemble.matches p.head
  received : ∀ p ∈ assemble.fragments, ∃ whole, R whole ∧ p.CutFrom whole
  curLen_eq : assemble.curLen = (assemble.fragments.map fun p => p.info.length).sum
  totalLen_eq : assemble.totalLen = 0 ∨ ∃ last, R last ∧ assemble.matches last.head ∧
    ip4LastFragment last.head.fragment ∧ assemble.totalLen = last.info.stop
  head_iff : assemble.head.isSome ↔ ∃ p ∈ assemble.fragments, p.info.start = 0
  head_matches : ∀ head, assemble.head = some head → assemble.matches head
  info_eq : assemble.info.isSome = assemble.head.isSome

/-- The new fragment is not trimmed at its tail, and no empty first fragment is there when another
first fragment comes. -/
structure AssembleEntry.Accepts (assemble : AssembleEntry) (packet : Packet) : Prop where
  noTailTrim : ¬ ∃ node ∈ assemble.fragments, packet.info.start < node.info.start ∧
    node.info.start < packet.info.stop ∧ packet.info.stop < node.info.stop ∧
    ∀ prev ∈ assemble.fragments, prev.info.start ≤ packet.info.start →
      prev.info.stop < node.info.start
  firstOnce : packet.info.start = 0 →
    ∀ node ∈ assemble.fragments, node.info.start = 0 → node.info.stop ≠ 0

/-- The packet consists of bytes of received fragments of the same packet, up to the end of a last
fragment. -/
structure Assembled (R : Packet → Prop) (packet : Packet) : Prop where
  wellFormed : packet.buf.WellFormed
  length_eq : ∃ last, R last ∧ last.head.SamePacket packet.head ∧
    ip4LastFragment last.head.fragment ∧ (packet.buf.totalSize : ℤ) = last.info.stop
  getElem?_eq : ∀ i < packet.buf.totalSize, ∃ whole, R whole ∧
    whole.head.SamePacket packet.head ∧ Covers whole i ∧ packet.buf.bytes[i]? = elementAt whole i

lemma matches_iff {assemble : AssembleEntry} {head : Ip4Head} :
    assemble.matches head ↔ assemble.dst = head.dst ∧ assemble.src = head.src ∧
      assemble.id = head.id ∧ assemble.protocol = head.protocol := by
  simp [AssembleEntry.matches]

lemma Ip4Head.SamePacket.of_matches {assemble : AssembleEntry} {head head' : Ip4Head}
    (h : assemble.matches head) (h' : assemble.matches head') : head.SamePacket head' := by
  rw [matches_iff] at h h'
  obtain ⟨h₁, h₂, h₃, h₄⟩ := h
  rw [h₁, h₂, h₃, h₄] at h'
  exact h'

lemma total_eq_sum {fragments : List Packet} (h : ∀ p ∈ fragments, p.Sound) :
    total fragments = (fragments.map fun p => p.info.length).sum := by
  unfold total
  congr 1
  apply List.map_congr_left
  intro p hp
  exact (h p hp).data_length

lemma flatMap_data (fragments : List Packet) :
    fragments.flatMap data = bufListBytes (fragments.map Packet.buf) := by
  rw [bufListBytes, List.flatMap_map]
  rfl

lemma AssembleEntry.Sound.totalLen_nonneg {assemble : AssembleEntry} (h : assemble.Sound R)
    (hR : ∀ p, R p → p.Sound) : 0 ≤ assemble.totalLen := by
  rcases h.totalLen_eq with hzero | ⟨last, hlast, -, -, heq⟩
  · exact Int.le_of_eq hzero.symm
  · have hsou := hR last hlast
    have hnon := hsou.nonneg
    have hspan := hsou.span
    have hlen := hsou.length
    omega

lemma AssembleEntry.Sound.contiguous {assemble : AssembleEntry} {last : Packet}
    (h : assemble.Sound R) (hfull : assemble.totalLen ≤ assemble.curLen)
    (hlast : assemble.fragments.getLast? = some last) (hstop : last.info.stop = assemble.totalLen) :
    Contiguous 0 assemble.fragments assemble.totalLen := by
  have hmem : last ∈ assemble.fragments := List.mem_of_getLast? hlast
  have hend : Piece.stop last = assemble.totalLen := by
    rw [(h.sound last hmem).stop_eq, hstop]
  rw [← hend]
  apply h.inOrder.contiguous
  · intro p hp
    exact (h.sound p hp).nonneg
  · exact hlast
  · rw [total_eq_sum h.sound, ← h.curLen_eq, hend]
    omega

lemma AssembleEntry.Sound.head_isSome {assemble : AssembleEntry} (h : assemble.Sound R)
    (hcon : Contiguous 0 assemble.fragments assemble.totalLen)
    (hne : assemble.totalLen ≠ 0) : assemble.head.isSome := by
  rw [h.head_iff]
  cases hfra : assemble.fragments with
  | nil =>
    rw [hfra] at hcon
    exact absurd hcon.symm hne
  | cons p fragments =>
    rw [hfra] at hcon
    exact ⟨p, by simp, hcon.1⟩

lemma AssembleEntry.Sound.assembled {assemble : AssembleEntry} {info : Ip4ClipInfo}
    {head : Ip4Head} {nbuf : NetBuf} (h : assemble.Sound R) (hR : ∀ p, R p → p.Sound)
    (hcon : Contiguous 0 assemble.fragments assemble.totalLen)
    (hne : assemble.totalLen ≠ 0) (hhead : assemble.head = some head) (hwf : nbuf.WellFormed)
    (hbyt : nbuf.bytes = assemble.fragments.flatMap data) : Assembled R ⟨head, info, nbuf⟩ := by
  have hlen := hwf.length_bytes
  have hmat := h.head_matches head hhead
  constructor
  · exact hwf
  · obtain hzero | ⟨last, hlast, hbel, hmf, heq⟩ := h.totalLen_eq
    · exact absurd hzero hne
    · refine ⟨last, hlast, .of_matches hbel hmat, hmf, ?_⟩
      have htot := hcon.length_eq
      rw [← hbyt, hlen] at htot
      dsimp only
      omega
  · intro i hi
    rw [← hlen, hbyt] at hi
    obtain ⟨p, hp, hcov, hget⟩ := hcon.getElem? hi
    rw [Int.zero_add] at hcov hget
    obtain ⟨whole, hwho, hcut⟩ := h.received p hp
    have hbel := h.belongs p hp
    refine ⟨whole, hwho, ?_, ?_, ?_⟩
    · rw [← hcut.head_eq]
      exact .of_matches hbel hmat
    · have hsta := hcut.start_le
      have hstop := hcut.stop_le
      unfold Covers at hcov ⊢
      rw [(h.sound p hp).stop_eq] at hcov
      rw [(hR whole hwho).stop_eq]
      rw [start_def] at hcov ⊢
      omega
    · rw [hbyt, hget, hcut.elementAt_eq i hcov]

/-- An entry that is complete leaves the table; it is delivered if its last fragment ends where it
should. -/
lemma deliver_complete (allocation : Allocation) {assemble : AssembleEntry} (h : assemble.Sound R)
    (hR : ∀ p, R p → p.Sound) (hne : assemble.totalLen ≠ 0)
    (hfull : assemble.totalLen ≤ assemble.curLen) :
    ∃ result, deliver allocation assemble = .ok (result, none) ∧
      (∀ p, result = some p → Assembled R p ∧ assemble.matches p.head) ∧
      (allocation.Succeeds → (∀ last, assemble.fragments.getLast? = some last →
        last.info.stop = assemble.totalLen) → result.isSome) := by
  have hnon := h.totalLen_nonneg hR
  unfold deliver
  rw [if_pos ⟨hne, hfull⟩]
  cases hlast : assemble.fragments.getLast? with
  | none =>
    have hcur := h.curLen_eq
    rw [List.getLast?_eq_none_iff.mp hlast] at hcur
    simp only [List.map_nil, List.sum_nil] at hcur
    omega
  | some last =>
    by_cases hstop : last.info.stop = assemble.totalLen
    · have hcon := h.contiguous hfull hlast hstop
      have hlen := hcon.length_eq
      rw [flatMap_data] at hlen
      have hlt : assemble.totalLen ≤ 65535 := by
        rw [← hstop]
        exact (h.sound last (List.mem_of_getLast? hlast)).le
      have hwf : BufListWellFormed (assemble.fragments.map Packet.buf) := by
        intro nbuf hnbuf
        obtain ⟨p, hp, rfl⟩ := List.mem_map.mp hnbuf
        exact (h.sound p hp).wellFormed
      have hbyt : bufListBytes (assemble.fragments.map Packet.buf) ≠ [] := by
        grind
      obtain ⟨result, hrun, hsome, hspec⟩ :=
        fromBufListSound_of_lt hwf hbyt (by omega) allocation
      have hisS := h.head_isSome hcon hne
      obtain ⟨head, hhead⟩ := Option.isSome_iff_exists.mp hisS
      obtain ⟨info, hinfo⟩ := Option.isSome_iff_exists.mp (h.info_eq.trans hisS)
      cases result with
      | none =>
        refine ⟨none, ?_, by simp, ?_⟩
        · simp [hstop, hrun, bind, Except.bind, pure, Except.pure]
        · intro hmem
          exact absurd (hsome hmem) (by simp)
      | some nbuf =>
        obtain ⟨hnbuf, hdata⟩ := hspec nbuf rfl
        rw [← flatMap_data] at hdata
        refine ⟨some ⟨head, info, nbuf⟩, ?_, ?_, by simp⟩
        · simp [hstop, hrun, hinfo, hhead, bind, Except.bind, pure, Except.pure]
        · intro p hp
          cases hp
          exact ⟨h.assembled hR hcon hne hhead hnbuf hdata, h.head_matches head hhead⟩
    simp [hstop]

lemma deliver_incomplete (allocation : Allocation) {assemble : AssembleEntry}
    (h : ¬ (assemble.totalLen ≠ 0 ∧ assemble.totalLen ≤ assemble.curLen)) :
    deliver allocation assemble = .ok (none, some assemble) := if_neg h

/-! ### One step of an entry -/

/-- The fragments around the insert point. -/
structure InsertPoint (fragments : List Packet) (packet : Packet) (before behind : List Packet) :
    Prop where
  split : fragments = before ++ behind
  before_le : ∀ p ∈ before, p.info.start ≤ packet.info.start
  lt_behind : ∀ p ∈ behind, packet.info.start < p.info.start

lemma insertPoint {fragments : List Packet} (h : InOrder fragments) (packet : Packet) :
    InsertPoint fragments packet
      (fragments.takeWhile fun fragment => ¬ packet.info.start < fragment.info.start)
      (fragments.dropWhile fun fragment => ¬ packet.info.start < fragment.info.start) := by
  constructor
  · exact List.takeWhile_append_dropWhile.symm
  · intro p hp
    have hle := List.mem_takeWhile_imp hp
    simp only [decide_eq_true_eq] at hle
    omega
  · have hbeh : InOrder
        (fragments.dropWhile fun fragment => ¬ packet.info.start < fragment.info.start) :=
      List.Pairwise.sublist (List.dropWhile_sublist _) h
    apply hbeh.le_start
    intro q hq
    have hhead := List.head?_dropWhile_not
      (fun fragment : Packet => decide (¬ packet.info.start < fragment.info.start)) fragments
    rw [hq] at hhead
    have hlt : packet.info.start < q.info.start := by simpa using hhead
    exact hlt

lemma AssembleEntry.Sound.remove {assemble : AssembleEntry} {before swallowed rest : List Packet}
    (h : assemble.Sound R) (hspl : assemble.fragments = before ++ (swallowed ++ rest))
    (hfst : ∀ p ∈ swallowed, 0 < p.info.start) :
    AssembleEntry.Sound R { assemble with
      fragments := before ++ rest
      curLen := assemble.curLen - (swallowed.map fun p => p.info.length).sum } := by
  have hsub : (before ++ rest).Sublist assemble.fragments := by
    simp [hspl]
  constructor
  · exact h.inOrder.sublist hsub
  · exact fun p hp => h.sound p (hsub.subset hp)
  · exact fun p hp => h.belongs p (hsub.subset hp)
  · exact fun p hp => h.received p (hsub.subset hp)
  · simp [h.curLen_eq, hspl, List.map_append, List.sum_append]
    omega
  · exact h.totalLen_eq
  · rw [h.head_iff, hspl]
    constructor
    · grind
    grind
  · exact h.head_matches
  · exact h.info_eq

/-- The entry after a fragment is enqueued. -/
structure Enqueued (assemble : AssembleEntry) (fragments : List Packet) (this : Packet)
    (assemble' : AssembleEntry) : Prop where
  fragments_eq : assemble'.fragments = fragments
  curLen_eq : assemble'.curLen = assemble.curLen + this.info.length
  totalLen_eq : assemble'.totalLen =
    if ip4LastFragment this.head.fragment ∧ assemble.totalLen = 0 then this.info.stop
    else assemble.totalLen
  head_eq : assemble'.head = if this.info.start = 0 then some this.head else assemble.head
  info_eq : assemble'.info = if this.info.start = 0 then some this.info else assemble.info
  matches_eq : assemble'.matches = assemble.matches

lemma updateAssemble_enqueued {assemble : AssembleEntry} (fragments : List Packet)
    (hfst : this.info.start = 0 → assemble.head = none) :
    ∃ assemble', updateAssemble assemble fragments assemble.curLen this = .ok assemble' ∧
      Enqueued assemble fragments this assemble' := by
  unfold updateAssemble setFirst setTotalLen
  by_cases hzero : this.info.start = 0
  · have hnone := hfst hzero
    simp only [hzero, if_true, hnone, Option.isSome_none, Bool.false_eq_true, if_false, bind,
      Except.bind, pure, Except.pure]
    refine ⟨_, rfl, ?_⟩
    split_ifs with hlast
    · exact ⟨rfl, rfl, by rw [if_pos hlast], by rw [if_pos hzero], by rw [if_pos hzero], rfl⟩
    · exact ⟨rfl, rfl, by rw [if_neg hlast], by rw [if_pos hzero], by rw [if_pos hzero], rfl⟩
  · simp only [hzero, if_false, bind, Except.bind, pure, Except.pure]
    refine ⟨_, rfl, ?_⟩
    split_ifs with hlast
    · exact ⟨rfl, rfl, by rw [if_pos hlast], by rw [if_neg hzero], by rw [if_neg hzero], rfl⟩
    · exact ⟨rfl, rfl, by rw [if_neg hlast], by rw [if_neg hzero], by rw [if_neg hzero], rfl⟩

lemma AssembleEntry.Sound.enqueued {assemble assemble' : AssembleEntry}
    {before rest : List Packet} (h : assemble.Sound R)
    (hspl : assemble.fragments = before ++ rest) (hthis : this.Sound)
    (hbel : assemble.matches this.head) (hwho : R whole) (hcut : this.CutFrom whole)
    (hstop : this.info.stop = whole.info.stop)
    (hbef : ∀ p ∈ before, p.info.stop ≤ this.info.start)
    (hbeh : ∀ p ∈ rest, this.info.stop ≤ p.info.start)
    (henq : Enqueued assemble (before ++ this :: rest) this assemble') :
    assemble'.Sound R := by
  have hmem : ∀ p ∈ assemble'.fragments, p = this ∨ p ∈ assemble.fragments := by
    intro p hp
    rw [henq.fragments_eq] at hp
    grind
  have hord := h.inOrder
  rw [hspl, inOrder_append] at hord
  have hsou : ∀ p ∈ before ++ rest, p.Sound := by
    rw [← hspl]
    exact h.sound
  constructor
  · rw [henq.fragments_eq]
    apply hord.1.insert hord.2.1 hord.2.2
    · intro q hq
      rw [(hsou q (by simp [hq])).stop_eq]
      exact hbef q hq
    · intro q hq
      rw [hthis.stop_eq]
      exact hbeh q hq
  · grind
  · intro p hp
    rw [henq.matches_eq]
    rcases hmem p hp with rfl | hp
    · exact hbel
    · exact h.belongs p hp
  · intro p hp
    rcases hmem p hp with rfl | hp
    · exact ⟨whole, hwho, hcut⟩
    · exact h.received p hp
  · rw [henq.curLen_eq, henq.fragments_eq, h.curLen_eq, hspl]
    simp only [List.map_append, List.map_cons, List.sum_append, List.sum_cons]
    omega
  · rw [henq.totalLen_eq, henq.matches_eq]
    split_ifs with hlast
    · refine .inr ⟨whole, hwho, ?_, ?_, hstop⟩
      · rw [← hcut.head_eq]
        exact hbel
      · rw [← hcut.head_eq]
        exact hlast.1
    · exact h.totalLen_eq
  · rw [henq.head_eq, henq.fragments_eq]
    split_ifs with hzero
    · grind
    · rw [h.head_iff, hspl]
      grind
  · intro head hhead
    rw [henq.matches_eq]
    rw [henq.head_eq] at hhead
    split_ifs at hhead with hzero
    · cases hhead
      exact hbel
    · exact h.head_matches head hhead
  · rw [henq.head_eq, henq.info_eq]
    split_ifs
    · rfl
    · exact h.info_eq

lemma Before.stop_le {before : List Packet} (h : Before packet before.getLast? this)
    (hord : InOrder before) (hsou : ∀ p ∈ before, p.Sound) :
    ∀ p ∈ before, p.info.stop ≤ this.info.start := by
  intro p hp
  cases hlast : before.getLast? with
  | none =>
    rw [List.getLast?_eq_none_iff.mp hlast] at hp
    cases hp
  | some last =>
    have hle := hord.stop_le hlast hp
    rw [(hsou p hp).stop_eq, (hsou last (List.mem_of_getLast? hlast)).stop_eq] at hle
    exact Int.le_trans hle (h.start_le last hlast)

lemma AssembleEntry.Accepts.noTrim {assemble : AssembleEntry} {before behind : List Packet}
    (hacc : assemble.Accepts packet) (h : assemble.Sound R)
    (hpoi : InsertPoint assemble.fragments packet before behind)
    (hbef : Before packet before.getLast? this) :
    ∀ node ∈ behind, node.info.start < this.info.stop → this.info.stop < node.info.stop →
      this.info.start = node.info.start := by
  intro node hnode hove hstop
  by_contra hne
  apply hacc.noTailTrim
  have hspl := hpoi.split
  have hord := h.inOrder
  rw [hspl, inOrder_append] at hord
  rw [hbef.stop_eq] at hove hstop
  refine ⟨node, by rw [hspl]; simp [hnode], hpoi.lt_behind node hnode, hove, hstop, ?_⟩
  intro prev hprev hle
  rw [hspl, List.mem_append] at hprev
  rcases hprev with hprev | hprev
  · have hsou : ∀ p ∈ before, p.Sound := fun p hp => h.sound p (by rw [hspl]; simp [hp])
    have hpre := hbef.stop_le hord.1 hsou prev hprev
    -- the rest of the fragment starts where it started or where the one in front of it ends
    have hsta : this.info.start < node.info.start := by
      rcases hbef.start_eq with heq | ⟨last, hlast, heq⟩
      · rw [heq]
        exact hpoi.lt_behind node hnode
      · have hmem := List.mem_of_getLast? hlast
        have hlas := hord.2.2 last hmem node hnode
        rw [(hsou last hmem).stop_eq, start_def] at hlas
        omega
    omega
  · have hlt := hpoi.lt_behind prev hprev
    omega

lemma AssembleEntry.Accepts.first {assemble : AssembleEntry} {before behind : List Packet}
    (hacc : assemble.Accepts packet) (h : assemble.Sound R) (hpac : packet.Sound)
    (hpoi : InsertPoint assemble.fragments packet before behind)
    (hbef : Before packet before.getLast? this) (hzero : this.info.start = 0) :
    assemble.head = none := by
  by_contra hhead
  obtain ⟨p, hp, hpze⟩ := h.head_iff.mp (Option.isSome_iff_ne_none.mpr hhead)
  have hspl := hpoi.split
  have hord := h.inOrder
  rw [hspl, inOrder_append] at hord
  have hsta := hbef.cut.start_le
  have hnon := hpac.nonneg
  have hpbe : p ∈ before := by
    rw [hspl, List.mem_append] at hp
    rcases hp with hp | hp
    · exact hp
    · have hlt := hpoi.lt_behind p hp
      omega
  have hsou : ∀ p ∈ before, p.Sound := fun p hp => h.sound p (by rw [hspl]; simp [hp])
  have hle := hbef.stop_le hord.1 hsou p hpbe
  have hpos : p.info.stop ≠ 0 := hacc.firstOnce (by omega) p hp hpze
  have hspan := (h.sound p hp).span
  have hlen := (h.sound p hp).length
  omega

/-- One step of an entry: the fragment is dropped, or it is enqueued and the entry is delivered if
it is complete. -/
lemma reassembleEntry_cases (allocation : Allocation) {assemble : AssembleEntry}
    (h : assemble.Sound R) (hpac : packet.Sound) (hrec : R packet)
    (hbel : assemble.matches packet.head) (hacc : assemble.Accepts packet) :
    ∃ assemble', assemble'.Sound R ∧ assemble'.matches = assemble.matches ∧
      (reassembleEntry allocation assemble packet = .ok (none, some assemble') ∨
        reassembleEntry allocation assemble packet = deliver allocation assemble') := by
  have hpoi := insertPoint h.inOrder packet
  set before := assemble.fragments.takeWhile
    fun fragment => ¬ packet.info.start < fragment.info.start with hbefo
  set behind := assemble.fragments.dropWhile
    fun fragment => ¬ packet.info.start < fragment.info.start with hbehi
  have hord := h.inOrder
  rw [hpoi.split, inOrder_append] at hord
  have hsou : ∀ p ∈ before ++ behind, p.Sound := by
    rw [← hpoi.split]
    exact h.sound
  have hnon := hpac.nonneg
  rcases checkBefore_spec hpac before.getLast?
    (fun node hnode => hpoi.before_le node (List.mem_of_getLast? hnode)) with
    ⟨hrun, -⟩ | ⟨this, hrun, hbef⟩
  · refine ⟨assemble, h, rfl, .inl ?_⟩
    simp only [reassembleEntry, ← hbefo, hrun, bind, Except.bind, pure, Except.pure]
  · obtain ⟨⟨rest, curLen, kept⟩, swallowed, hloop, hbeh⟩ :=
      checkBehind_spec this behind assemble.curLen (hacc.noTrim h hpoi hbef)
    have hspl : assemble.fragments = before ++ (swallowed ++ rest) := by
      rw [hpoi.split, hbeh.split]
    have hrem := h.remove hspl fun p hp => by
      have hlt := hpoi.lt_behind p (by rw [hbeh.split]; simp [hp])
      omega
    rw [← hbeh.curLen_eq] at hrem
    dsimp only at hrem
    rcases hbeh.stays with ⟨rfl, -⟩ | ⟨rfl, hrest⟩
    · refine ⟨_, hrem, rfl, .inl ?_⟩
      simp only [reassembleEntry, ← hbefo, ← hbehi, hrun, hloop, bind, Except.bind, pure,
        Except.pure]
    · set removed : AssembleEntry :=
        { assemble with fragments := before ++ rest, curLen := curLen }
      have hfst : this.info.start = 0 → removed.head = none :=
        hacc.first h hpac hpoi hbef
      obtain ⟨assemble', hupd, henq⟩ :=
        updateAssemble_enqueued (before ++ this :: rest) hfst
      refine ⟨assemble', ?_, henq.matches_eq, .inr ?_⟩
      · apply hrem.enqueued rfl hbef.sound _ hrec hbef.cut hbef.stop_eq
          (hbef.stop_le hord.1 fun p hp => hsou p (by simp [hp])) _ henq
        · rw [hbef.cut.head_eq]
          exact hbel
        · have hsuf : InOrder rest := by
            rw [hbeh.split, inOrder_append] at hord
            exact hord.2.1.2.1
          exact hsuf.le_start hrest
      · have hupd : updateAssemble assemble (before ++ this :: rest) curLen this =
            .ok assemble' := hupd
        simp only [reassembleEntry, ← hbefo, ← hbehi, hrun, hloop, hupd, bind, Except.bind]

lemma reassembleEntry_disjoint (allocation : Allocation) {assemble : AssembleEntry}
    (h : assemble.Sound R) (hpac : packet.Sound) (hrec : R packet)
    (hbel : assemble.matches packet.head) (hlt : packet.info.start < packet.info.stop)
    (hdis : ∀ p ∈ assemble.fragments, p.info.start < p.info.stop ∧
      (p.info.stop ≤ packet.info.start ∨ packet.info.stop ≤ p.info.start)) :
    ∃ assemble' before behind, assemble.fragments = before ++ behind ∧
      Enqueued assemble (before ++ packet :: behind) packet assemble' ∧ assemble'.Sound R ∧
      reassembleEntry allocation assemble packet = deliver allocation assemble' := by
  have hpoi := insertPoint h.inOrder packet
  set before := assemble.fragments.takeWhile
    fun fragment => ¬ packet.info.start < fragment.info.start with hbef
  set behind := assemble.fragments.dropWhile
    fun fragment => ¬ packet.info.start < fragment.info.start with hbeh
  have hspl := hpoi.split
  have hbefo : ∀ p ∈ before, p.info.stop ≤ packet.info.start := by
    intro p hp
    have hsta := hpoi.before_le p hp
    grind
  have hbehi : ∀ p ∈ behind, packet.info.stop ≤ p.info.start := by
    intro p hp
    have hsta := hpoi.lt_behind p hp
    grind
  have hfst : packet.info.start = 0 → assemble.head = none := by
    intro hzero
    by_contra hhead
    obtain ⟨p, hp, hpze⟩ := h.head_iff.mp (Option.isSome_iff_ne_none.mpr hhead)
    have hcas := hdis p hp
    omega
  have hche : checkBefore packet before.getLast? = .ok (some packet) := by
    grind [checkBefore]
  have hchec : checkBehind packet behind assemble.curLen =
      .ok (behind, assemble.curLen, some packet) := by
    cases hnod : behind with
    | nil => rfl
    | cons node nodes =>
      grind [checkBehind]
  obtain ⟨assemble', hupd, henq⟩ :=
    updateAssemble_enqueued (before ++ packet :: behind) hfst
  refine ⟨assemble', before, behind, hspl, henq, ?_, ?_⟩
  · exact h.enqueued hspl hpac hbel hrec (.refl packet) rfl hbefo hbehi henq
  · simp only [reassembleEntry, ← hbef, ← hbeh, hche, hchec, hupd, bind, Except.bind]

lemma reassembleEntry_duplicate (allocation : Allocation) {assemble : AssembleEntry}
    {node : Packet} (h : assemble.Sound R) (hnode : node ∈ assemble.fragments)
    (hsta : node.info.start = packet.info.start) (hlt : node.info.start < node.info.stop)
    (hstop : packet.info.stop ≤ node.info.stop) :
    reassembleEntry allocation assemble packet = .ok (none, some assemble) := by
  have hpoi := insertPoint h.inOrder packet
  set before := assemble.fragments.takeWhile
    fun fragment => ¬ packet.info.start < fragment.info.start with hbef
  have hspl := hpoi.split
  have hmem : node ∈ before := by
    rw [hspl, List.mem_append] at hnode
    rcases hnode with hnode | hnode
    · exact hnode
    · have hbeh := hpoi.lt_behind node hnode
      omega
  -- no fragment lies between the old one and the insert point
  have hlast : before.getLast? = some node := by
    cases hlast : before.getLast? with
    | none =>
      rw [List.getLast?_eq_none_iff.mp hlast] at hmem
      cases hmem
    | some last =>
      have hle := hpoi.before_le last (List.mem_of_getLast? hlast)
      obtain ⟨front, hfro⟩ := List.getLast?_eq_some_iff.mp hlast
      have hord := h.inOrder
      rw [hspl, hfro, inOrder_append, inOrder_append] at hord
      rw [hfro, List.mem_append, List.mem_singleton] at hmem
      rcases hmem with hmem | rfl
      · have hbet := hord.1.2.2 node hmem last (by simp)
        have hsou : node.Sound := h.sound node (by rw [hspl, hfro]; simp [hmem])
        rw [hsou.stop_eq, start_def] at hbet
        omega
      · rfl
  have hche : checkBefore packet before.getLast? = .ok none := by
    simp [hlast, checkBefore, hstop]
    omega
  simp only [reassembleEntry, ← hbef, hche, bind, Except.bind, pure, Except.pure]

lemma reassembleEntry_spec (allocation : Allocation) {assemble : AssembleEntry}
    (h : assemble.Sound R) (hR : ∀ p, R p → p.Sound) (hrec : R packet)
    (hbel : assemble.matches packet.head) (hacc : assemble.Accepts packet) :
    ∃ result entry, reassembleEntry allocation assemble packet = .ok (result, entry) ∧
      (∀ e, entry = some e → e.Sound R ∧ e.matches = assemble.matches) ∧
      ∀ p, result = some p → Assembled R p ∧ assemble.matches p.head := by
  obtain ⟨assemble', hsou, hkey, hrun | hrun⟩ :=
    reassembleEntry_cases allocation h (hR packet hrec) hrec hbel hacc
  · grind
  · rw [hrun]
    by_cases hcom : assemble'.totalLen ≠ 0 ∧ assemble'.totalLen ≤ assemble'.curLen
    · obtain ⟨result, hdel, hass, -⟩ :=
        deliver_complete allocation hsou hR hcom.1 hcom.2
      rw [hkey] at hass
      exact ⟨result, none, hdel, by simp, hass⟩
    · refine ⟨none, some assemble', deliver_incomplete allocation hcom, ?_, by simp⟩
      intro e he
      cases he
      exact ⟨hsou, hkey⟩

/-- Every entry of the table is sound. -/
def AssembleTable.Sound (R : Packet → Prop) (table : AssembleTable) : Prop :=
  ∀ index, ∀ assemble ∈ table.bucket index, assemble.Sound R

/-- The entry that the packet belongs to accepts it. -/
def AssembleTable.Accepts (table : AssembleTable) (packet : Packet) : Prop :=
  ∀ assemble ∈ table.bucket (ip4AssembleHash packet.head), assemble.matches packet.head →
    assemble.Accepts packet

instance (assemble : AssembleEntry) (packet : Packet) : Decidable (assemble.Accepts packet) :=
  decidable_of_iff (_ ∧ _) ⟨fun h => ⟨h.1, h.2⟩, fun h => ⟨h.noTailTrim, h.firstOnce⟩⟩

instance (table : AssembleTable) (packet : Packet) : Decidable (table.Accepts packet) :=
  inferInstanceAs (Decidable (∀ _ ∈ _, _))

lemma AssembleTable.Sound.setBucket {table : AssembleTable} {entries : List AssembleEntry}
    (h : table.Sound R) (index : ℕ) (hent : ∀ assemble ∈ entries, assemble.Sound R) :
    (table.setBucket index entries).Sound R := by
  intro i assemble hass
  unfold AssembleTable.setBucket at hass
  dsimp only at hass
  split_ifs at hass
  · exact hent assemble hass
  · exact h i assemble hass

lemma sound_ip4CreateAssembleEntry (R : Packet → Prop) (dst src id protocol : ℕ) :
    (ip4CreateAssembleEntry dst src id protocol).Sound R := by
  constructor <;> simp [ip4CreateAssembleEntry, InOrder]

lemma accepts_ip4CreateAssembleEntry (packet : Packet) (dst src id protocol : ℕ) :
    (ip4CreateAssembleEntry dst src id protocol).Accepts packet := by
  constructor <;> simp [ip4CreateAssembleEntry]

lemma updateFirst_spec {entries : List AssembleEntry} {head : Ip4Head}
    {f : AssembleEntry → Except Halt (Option Packet × Option AssembleEntry)}
    (h : ∀ assemble ∈ entries, assemble.Sound R)
    (hf : ∀ assemble ∈ entries, assemble.matches head → ∃ result entry,
      f assemble = .ok (result, entry) ∧ (∀ e, entry = some e → e.Sound R) ∧
        ∀ p, result = some p → Assembled R p) :
    ∃ result entries', updateFirst head f entries = .ok (result, entries') ∧
      (∀ assemble ∈ entries', assemble.Sound R) ∧ ∀ p, result = some p → Assembled R p := by
  induction entries with
  | nil => exact ⟨none, [], rfl, by simp, by simp⟩
  | cons assemble entries ih =>
    by_cases hmat : assemble.matches head
    · obtain ⟨result, entry, hrun, hentr, hres⟩ := hf assemble (by simp) hmat
      refine ⟨result, entry.toList ++ entries, ?_, ?_, hres⟩
      · simp only [updateFirst, hmat, if_true, hrun, bind, Except.bind, pure, Except.pure]
      grind
    · obtain ⟨result, entries', hrun, hent, hres⟩ :=
        ih (fun e he => h e (by simp [he])) fun e he => hf e (by simp [he])
      refine ⟨result, assemble :: entries', ?_, ?_, hres⟩
      · simp only [updateFirst, hmat, Bool.false_eq_true, if_false, hrun, bind, Except.bind,
          pure, Except.pure]
      grind

lemma ip4Reassemble_spec (allocations : Allocations) {table : AssembleTable} (h : table.Sound R)
    (hR : ∀ p, R p → p.Sound) (hrec : R packet) (hacc : table.Accepts packet) :
    ∃ result table', ip4Reassemble allocations table packet = .ok (result, table') ∧
      table'.Sound R ∧ ∀ p, result = some p → Assembled R p := by
  unfold ip4Reassemble
  dsimp only
  split_ifs with hany hmem
  · obtain ⟨result, entries, hrun, hentr, hres⟩ := updateFirst_spec (h _)
      fun assemble hass hmat => by
        obtain ⟨result, entry, hrun, hent, hres⟩ := reassembleEntry_spec allocations.buffer
          (h _ assemble hass) hR hrec hmat (hacc assemble hass hmat)
        exact ⟨result, entry, hrun, fun e he => (hent e he).1, fun p hp => (hres p hp).1⟩
    rw [hrun]
    exact ⟨result, _, rfl, h.setBucket _ hentr, hres⟩
  · exact ⟨none, table, rfl, h, by simp⟩
  · set head := packet.head
    set new := ip4CreateAssembleEntry head.dst head.src head.id head.protocol
    have hmat : new.matches head := matches_iff.mpr ⟨rfl, rfl, rfl, rfl⟩
    have hnew : new.Accepts packet :=
      accepts_ip4CreateAssembleEntry packet head.dst head.src head.id head.protocol
    obtain ⟨result, entry, hrun, hent, hres⟩ := reassembleEntry_spec allocations.buffer
      (sound_ip4CreateAssembleEntry R head.dst head.src head.id head.protocol) hR hrec hmat
      hnew
    rw [hrun]
    refine ⟨result, _, rfl, h.setBucket _ ?_, fun p hp => (hres p hp).1⟩
    intro e he
    rw [List.mem_append, Option.mem_toList] at he
    rcases he with he | he
    · exact (hent e he).1
    · exact h _ e he

end Edk2.Ip4
