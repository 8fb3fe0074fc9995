import Edk2.Ip4.Table
import Mathlib.Data.Finset.Range

/-!
# Splitting and reassembling IPv4 packets

The frames of packets that `Ip4Output` has split reach `Ip4Reassemble` in any order, repeated and
mixed with each other and with fragments of other packets. A packet comes out whole when every one of
its frames has arrived since it came out last.
-/

namespace Edk2.Ip4

open Net Window Piece

/-- A packet that `Ip4Output` splits, with the frames it sends. -/
structure Split where
  packet : NetBuf
  /-- The head of the packet; the fragment field is filled in for each frame. -/
  head : Ip4Head
  maxPacketSize : ℕ
  headLen : ℕ
  allocation : ℕ → Allocation
  frames : List (BitVec 16 × NetBuf)
  wellFormed : packet.WellFormed
  splits : maxPacketSize + 20 < packet.totalSize + headLen
  /-- There is room for a unit of eight bytes behind the head. -/
  unit : headLen + 8 ≤ maxPacketSize + 20
  limit : headLen + packet.totalSize ≤ 65535
  frames_eq :
    ip4Fragment allocation packet head.fragment maxPacketSize headLen = .ok (some frames)

/-- The packet that reaches `Ip4Reassemble` for a frame: its buffer holds the data of the frame in
any blocks. -/
structure Carries (s : Split) (k : ℕ) (packet : Packet) : Prop where
  frame : ∃ nbuf, s.frames[k]? = some (packet.head.fragment, nbuf) ∧ packet.buf.bytes = nbuf.bytes
  wellFormed : packet.buf.WellFormed
  same : packet.head.SamePacket s.head
  start_eq : packet.info.start = (packet.head.fragment &&& ip4HeadOffsetMask).toNat * 8
  length_eq : packet.info.length = packet.buf.totalSize
  stop_eq : packet.info.stop = packet.info.start + packet.info.length

namespace Split

variable (s : Split)

/-- The length of the frames. -/
def mtu : ℕ := fragmentLen s.maxPacketSize s.headLen

/-- The place of the data of a frame. -/
def offset (k : ℕ) : ℕ := s.mtu * (s.frames.length - 1 - k)

lemma splitInto : SplitInto s.packet s.mtu s.frames := by
  obtain ⟨result, hrun, -, hspec⟩ :=
    ip4Fragment_spec s.wellFormed s.allocation s.head.fragment s.splits s.unit
  rw [s.frames_eq] at hrun
  exact hspec s.frames (Except.ok.inj hrun).symm

lemma mtu_pos : 0 < s.mtu := by
  have := s.unit
  unfold mtu fragmentLen
  omega

lemma mtu_lt : s.mtu < s.packet.totalSize := by
  have := s.splits
  have := s.unit
  unfold mtu fragmentLen
  omega

lemma num_spec : 2 ≤ s.frames.length ∧ s.mtu * (s.frames.length - 1) < s.packet.totalSize ∧
    s.packet.totalSize ≤ s.mtu * s.frames.length := by
  rw [s.splitInto.length_eq]
  exact fragmentNum_spec s.mtu_pos s.mtu_lt

lemma offset_lt (k : ℕ) : s.offset k < s.packet.totalSize := by
  have hlt := s.num_spec.2.1
  have hle : s.offset k ≤ s.mtu * (s.frames.length - 1) := Nat.mul_le_mul_left _ (by omega)
  omega

lemma le_offset_zero : s.packet.totalSize ≤ s.offset 0 + s.mtu := by
  have hnum := s.num_spec
  have hsucc : s.mtu * (s.frames.length - 1) + s.mtu = s.mtu * s.frames.length := by
    rw [← Nat.mul_succ]
    congr 1
    omega
  unfold offset
  rw [Nat.sub_zero, hsucc]
  exact hnum.2.2

lemma offset_add_le {k k' : ℕ} (h : k < k') (hk' : k' < s.frames.length) :
    s.offset k' + s.mtu ≤ s.offset k := by
  unfold offset
  rw [← Nat.mul_succ]
  exact Nat.mul_le_mul_left _ (by omega)

end Split

namespace Carries

variable {s : Split} {k k' : ℕ} {packet packet' : Packet}

lemma lt (h : Carries s k packet) : k < s.frames.length := by
  obtain ⟨nbuf, hget, -⟩ := h.frame
  exact (List.getElem?_eq_some_iff.mp hget).1

lemma field_eq (h : Carries s k packet) :
    packet.head.fragment = ip4HeadFragmentField false (k ≠ 0) (s.offset k) := by
  obtain ⟨nbuf, hget, -⟩ := h.frame
  obtain ⟨nbuf', hget', -⟩ := s.splitInto.frame k h.lt
  rw [hget] at hget'
  exact (Prod.mk.inj (Option.some.inj hget')).1

lemma bytes_eq (h : Carries s k packet) :
    packet.buf.bytes = window s.packet.bytes (s.offset k) s.mtu := by
  obtain ⟨nbuf, hget, hbyt⟩ := h.frame
  obtain ⟨nbuf', hget', -, hwin⟩ := s.splitInto.frame k h.lt
  rw [hget] at hget'
  rw [hbyt, (Prod.mk.inj (Option.some.inj hget')).2, hwin]
  rfl

lemma last_iff (h : Carries s k packet) : ip4LastFragment packet.head.fragment ↔ k = 0 := by
  rw [h.field_eq, ip4LastFragment_field]
  simp

lemma start_offset (h : Carries s k packet) : packet.info.start = s.offset k := by
  rw [h.start_eq, h.field_eq]
  apply offset_field
  · have := s.offset_lt k
    have := s.limit
    omega
  · unfold Split.offset Split.mtu fragmentLen
    rw [Nat.mul_right_comm, Nat.mul_mod_left]

lemma stop_min (h : Carries s k packet) :
    packet.info.stop = min (s.offset k + s.mtu) s.packet.totalSize := by
  have hlen := h.wellFormed.length_bytes
  have hlt := s.offset_lt k
  rw [h.bytes_eq, length_window, s.wellFormed.length_bytes] at hlen
  rw [h.stop_eq, h.start_offset, h.length_eq]
  omega

lemma start_lt_stop (h : Carries s k packet) : packet.info.start < packet.info.stop := by
  have hlt := s.offset_lt k
  have hpos := s.mtu_pos
  rw [h.start_offset, h.stop_min]
  omega

lemma sound (h : Carries s k packet) : packet.Sound := by
  have hlim := s.limit
  constructor
  · rw [h.start_offset]
    omega
  · exact h.stop_eq.symm
  · exact h.length_eq
  · rw [h.stop_min, ip4MaxPacketSize]
    omega
  · exact h.wellFormed

lemma disjoint (h : Carries s k packet) (h' : Carries s k' packet') (hne : k ≠ k') :
    packet.info.stop ≤ packet'.info.start ∨ packet'.info.stop ≤ packet.info.start := by
  have hlt := h.lt
  have hlt' := h'.lt
  rw [h.start_offset, h'.start_offset, h.stop_min, h'.stop_min]
  rcases Nat.lt_or_gt_of_ne hne with hless | hless
  · have hle := s.offset_add_le hless hlt'
    omega
  · have hle := s.offset_add_le hless hlt
    omega

lemma stop_zero (h : Carries s 0 packet) : packet.info.stop = s.packet.totalSize := by
  have hle := s.le_offset_zero
  rw [h.stop_min]
  omega

lemma elementAt_eq (h : Carries s k packet) {i : ℕ} (hcov : Covers packet i) :
    elementAt packet i = s.packet.bytes[i]? := by
  obtain ⟨hle, hlt⟩ := hcov
  rw [h.sound.stop_eq, h.stop_min] at hlt
  rw [start_def, h.start_offset] at hle
  have hget : elementAt packet i = packet.buf.bytes[(i - (s.offset k : ℤ)).toNat]? := by
    rw [elementAt, start_def, h.start_offset]
    rfl
  rw [hget, h.bytes_eq, window, List.getElem?_take_of_lt (by omega), List.getElem?_drop]
  congr 1
  omega

lemma covers_of_place (h : Carries s k packet) {i : ℕ} (hi : i < s.packet.totalSize)
    (hk : k = s.frames.length - 1 - i / s.mtu) : Covers packet i := by
  have hnum := s.num_spec
  have hdiv : i / s.mtu < s.frames.length := by
    apply Nat.div_lt_of_lt_mul
    omega
  have hpla : s.offset k = s.mtu * (i / s.mtu) := by
    grind [Split.offset]
  have hmod := Nat.mod_lt i s.mtu_pos
  have hdivm := Nat.div_add_mod i s.mtu
  unfold Covers
  rw [h.sound.stop_eq, start_def, h.start_offset, h.stop_min, hpla]
  omega

end Carries

section Entry

variable {R : Packet → Prop} {s : Split} {seen : Finset ℕ} {assemble : AssembleEntry} {k : ℕ}
  {packet : Packet}

/-- The entry holds the frames that were seen and nothing else. -/
structure Holds (R : Packet → Prop) (s : Split) (seen : Finset ℕ) (assemble : AssembleEntry) :
    Prop where
  sound : assemble.Sound R
  carries : ∀ p ∈ assemble.fragments, ∃ k ∈ seen, Carries s k p
  carried : ∀ k ∈ seen, ∃ p ∈ assemble.fragments, Carries s k p
  totalLen_eq : assemble.totalLen = if 0 ∈ seen then (s.packet.totalSize : ℤ) else 0
  belongs : assemble.matches s.head

lemma Holds.again (h : Holds R s seen assemble) (hpac : Carries s k packet) (hk : k ∈ seen)
    (allocation : Allocation) :
    reassembleEntry allocation assemble packet = .ok (none, some assemble) := by
  obtain ⟨node, hnode, hcar⟩ := h.carried k hk
  apply reassembleEntry_duplicate allocation h.sound hnode
  · rw [hcar.start_offset, hpac.start_offset]
  · exact hcar.start_lt_stop
  · rw [hcar.stop_min, hpac.stop_min]

lemma Holds.new (h : Holds R s seen assemble) (hrec : R packet)
    (hpac : Carries s k packet) (hk : k ∉ seen) (allocation : Allocation) :
    ∃ assemble', Holds R s (insert k seen) assemble' ∧ assemble'.matches = assemble.matches ∧
      reassembleEntry allocation assemble packet = deliver allocation assemble' := by
  have hbel : assemble.matches packet.head := by
    rw [hpac.same.matches_eq]
    exact h.belongs
  have hdis : ∀ p ∈ assemble.fragments, p.info.start < p.info.stop ∧
      (p.info.stop ≤ packet.info.start ∨ packet.info.stop ≤ p.info.start) := by
    intro p hp
    obtain ⟨k', hk', hcar⟩ := h.carries p hp
    refine ⟨hcar.start_lt_stop, hcar.disjoint hpac ?_⟩
    rintro rfl
    exact hk hk'
  obtain ⟨assemble', before, behind, hspl, henq, hsou, hrun⟩ :=
    reassembleEntry_disjoint allocation h.sound hpac.sound hrec hbel hpac.start_lt_stop hdis
  have hmem : ∀ p, p ∈ assemble'.fragments ↔ p = packet ∨ p ∈ assemble.fragments := by
    intro p
    rw [henq.fragments_eq, hspl]
    simp only [List.mem_append, List.mem_cons]
    tauto
  refine ⟨assemble', ⟨hsou, ?_, ?_, ?_, ?_⟩, henq.matches_eq, hrun⟩
  · intro p hp
    rcases (hmem p).mp hp with rfl | hp
    · exact ⟨k, by simp, hpac⟩
    · obtain ⟨k', hk', hcar⟩ := h.carries p hp
      exact ⟨k', by simp [hk'], hcar⟩
  · intro k' hk'
    rcases Finset.mem_insert.mp hk' with rfl | hk'
    · exact ⟨packet, (hmem packet).mpr (.inl rfl), hpac⟩
    · obtain ⟨p, hp, hcar⟩ := h.carried k' hk'
      exact ⟨p, (hmem p).mpr (.inr hp), hcar⟩
  · rw [henq.totalLen_eq, h.totalLen_eq]
    by_cases hzero : k = 0
    · subst hzero
      rw [if_neg hk, if_pos ⟨hpac.last_iff.mpr rfl, rfl⟩, if_pos (Finset.mem_insert_self _ _)]
      exact hpac.stop_zero
    · have hnot : ¬ ip4LastFragment packet.head.fragment := fun h => hzero (hpac.last_iff.mp h)
      grind
  · rw [henq.matches_eq]
    exact h.belongs

lemma Holds.complete_iff (h : Holds R s seen assemble)
    (hseen : seen ⊆ Finset.range s.frames.length) :
    assemble.totalLen ≠ 0 ∧ assemble.totalLen ≤ assemble.curLen ↔
      seen = Finset.range s.frames.length := by
  have hsize := s.mtu_lt
  have hnum := s.num_spec
  have hcur : assemble.curLen = total assemble.fragments := by
    rw [total_eq_sum h.sound.sound]
    exact h.sound.curLen_eq
  have hsta : ∀ p ∈ assemble.fragments, 0 ≤ start p := fun p hp => (h.sound.sound p hp).nonneg
  rw [h.totalLen_eq, hcur]
  constructor
  · rintro ⟨hne, hle⟩
    have hzero : 0 ∈ seen := by
      by_contra hzero
      exact hne (if_neg hzero)
    rw [if_pos hzero] at hle
    apply Finset.Subset.antisymm hseen
    intro k hk
    rw [Finset.mem_range] at hk
    by_contra hmis
    -- nothing covers the place of a frame that is missing
    have hoff := s.offset_lt k
    have hhole := h.sound.inOrder.total_lt (b := s.packet.totalSize) (i := s.offset k) hsta
      (fun p hp => by
        obtain ⟨k', -, hcar⟩ := h.carries p hp
        rw [hcar.sound.stop_eq, hcar.stop_min]
        omega)
      (by omega) (by omega)
      (fun p hp hcov => by
        obtain ⟨k', hk', hcar⟩ := h.carries p hp
        unfold Covers at hcov
        rw [hcar.sound.stop_eq, start_def, hcar.start_offset, hcar.stop_min] at hcov
        have hk'lt := hcar.lt
        rcases Nat.lt_trichotomy k k' with hless | rfl | hless
        · have := s.offset_add_le hless hk'lt
          omega
        · exact hmis hk'
        · have := s.offset_add_le hless hk
          have := s.mtu_pos
          omega)
    omega
  · rintro rfl
    have hzero : 0 ∈ Finset.range s.frames.length := Finset.mem_range.mpr (by omega)
    rw [if_pos hzero]
    refine ⟨by omega, ?_⟩
    have hfull := h.sound.inOrder.le_total (b := s.packet.totalSize) hsta
      (fun i hi hb => by
        obtain ⟨i, rfl⟩ := Int.eq_ofNat_of_zero_le hi
        obtain ⟨p, hp, hcar⟩ := h.carried (s.frames.length - 1 - i / s.mtu)
          (Finset.mem_range.mpr (Nat.lt_of_le_of_lt (Nat.sub_le _ _) (by omega)))
        exact ⟨p, hp, hcar.covers_of_place (by omega) rfl⟩)
    omega

lemma Assembled.bytes_eq (h : Assembled R packet) (hsame : packet.head.SamePacket s.head)
    (hR : ∀ p, R p → p.head.SamePacket s.head → ∃ k, Carries s k p) :
    packet.buf.bytes = s.packet.bytes := by
  have htra : ∀ p : Packet, p.head.SamePacket packet.head → p.head.SamePacket s.head := by
    grind [Ip4Head.SamePacket]
  have hsize : packet.buf.totalSize = s.packet.totalSize := by
    obtain ⟨last, hlast, hpac, hmf, heq⟩ := h.length_eq
    obtain ⟨k, hcar⟩ := hR last hlast (htra last hpac)
    have hzero : k = 0 := hcar.last_iff.mp hmf
    subst hzero
    rw [hcar.stop_zero] at heq
    omega
  apply List.ext_getElem?
  intro i
  by_cases hi : i < packet.buf.totalSize
  · obtain ⟨whole, hwho, hpac, hcov, hget⟩ := h.getElem?_eq i hi
    obtain ⟨k, hcar⟩ := hR whole hwho (htra whole hpac)
    rw [hget, hcar.elementAt_eq hcov]
  · rw [List.getElem?_eq_none, List.getElem?_eq_none]
    · rw [s.wellFormed.length_bytes]
      omega
    · rw [h.wellFormed.length_bytes]
      omega

end Entry

section Family

variable {ι : Type*} {split : ι → Split} {R : Packet → Prop}
  {seen : ι → Finset ℕ} {table table' : AssembleTable} {packet : Packet} {i : ι} {k : ℕ}

/-- No two packets of the family have the same key. -/
def Distinct (split : ι → Split) : Prop :=
  ∀ i j, (split i).head.SamePacket (split j).head → i = j

/-- The table holds the frames that were seen since their packet was delivered last. -/
structure TableHolds (R : Packet → Prop) (split : ι → Split) (seen : ι → Finset ℕ)
    (table : AssembleTable) : Prop where
  unique : table.Unique
  sound : table.Sound R
  missing : ∀ i, seen i ⊂ Finset.range (split i).frames.length
  none : ∀ i, table.lookup (split i).head = none → seen i = ∅
  some : ∀ i e, table.lookup (split i).head = some e → Holds R (split i) (seen i) e

lemma holds_ip4CreateAssembleEntry (R : Packet → Prop) {s : Split} {head : Ip4Head}
    (hsame : head.SamePacket s.head) :
    Holds R s ∅ (ip4CreateAssembleEntry head.dst head.src head.id head.protocol) := by
  refine ⟨sound_ip4CreateAssembleEntry R _ _ _ _, ?_, ?_, rfl, matches_iff.mpr hsame⟩
  · simp [ip4CreateAssembleEntry]
  · simp

lemma TableHolds.entryFor (h : TableHolds R split seen table)
    (hsame : packet.head.SamePacket (split i).head) :
    Holds R (split i) (seen i) (table.entryFor packet.head) := by
  have hloo := hsame.lookup_eq table
  unfold AssembleTable.entryFor
  cases hent : table.lookup packet.head with
  | none =>
    rw [hloo] at hent
    rw [h.none i hent, Option.getD_none]
    exact holds_ip4CreateAssembleEntry R hsame
  | some e =>
    rw [hloo] at hent
    exact h.some i e hent

lemma AssembleTable.Sound.entryFor (h : table.Sound R) (head : Ip4Head) :
    (table.entryFor head).Sound R := by
  unfold AssembleTable.entryFor
  cases hent : table.lookup head with
  | none => exact sound_ip4CreateAssembleEntry R _ _ _ _
  | some e => exact h _ e (List.mem_of_find?_eq_some hent)

lemma Replaced.sound {entry : Option AssembleEntry} (h : Replaced table table' packet.head entry)
    (hsou : table.Sound R) (hent : ∀ e, entry = .some e → e.Sound R) : table'.Sound R := by
  intro index e he
  rcases h.mem index e he with hold | hnew
  · exact hsou index e hold
  · exact hent e hnew

lemma TableHolds.replace_other (h : TableHolds R split seen table)
    (hfor : ∀ i, ¬ packet.head.SamePacket (split i).head) {entry : Option AssembleEntry}
    (hrep : Replaced table table' packet.head entry)
    (hent : ∀ e, entry = .some e → e.Sound R) : TableHolds R split seen table' := by
  have hloo : ∀ i, table'.lookup (split i).head = table.lookup (split i).head :=
    fun i => hrep.other _ (hfor i)
  refine ⟨hrep.unique, hrep.sound h.sound hent, h.missing, ?_, ?_⟩
  · intro i
    rw [hloo]
    exact h.none i
  · intro i e
    rw [hloo]
    exact h.some i e

/-! ### One arrival -/

def Allocations.Succeed (allocations : Allocations) : Prop :=
  allocations.entry ∧ allocations.buffer.Succeeds

/-- Everything that was received for a packet of the family are frames of it. -/
structure ReceivedFrom (split : ι → Split) (R : Packet → Prop) : Prop where
  sound : ∀ p, R p → p.Sound
  carries : ∀ i p, R p → p.head.SamePacket (split i).head → ∃ k, Carries (split i) k p

lemma TableHolds.arrive_other (h : TableHolds R split seen table) (hR : ReceivedFrom split R)
    (hrec : R packet) (hfor : ∀ i, ¬ packet.head.SamePacket (split i).head)
    (hacc : table.Accepts packet) (allocations : Allocations) :
    ∃ result table', ip4Reassemble allocations table packet = .ok (result, table') ∧
      (∀ p, result = .some p → p.head.SamePacket packet.head) ∧
      TableHolds R split seen table' := by
  have hbel := matches_entryFor table packet.head
  have hentr : (table.entryFor packet.head).Accepts packet := by
    unfold AssembleTable.entryFor
    cases hent : table.lookup packet.head with
    | none => exact accepts_ip4CreateAssembleEntry packet _ _ _ _
    | some e =>
      exact hacc e (List.mem_of_find?_eq_some hent)
        (List.find?_some (p := fun e : AssembleEntry => e.matches packet.head) hent)
  obtain ⟨result, entry, hrun, hent, hres⟩ := reassembleEntry_spec allocations.buffer
    (h.sound.entryFor packet.head) hR.sound hrec hbel hentr
  by_cases hmem : (table.lookup packet.head).isSome ∨ allocations.entry
  · obtain ⟨table', hrea, hrep⟩ :=
      ip4Reassemble_eq h.unique hmem hrun fun e he => (hent e he).2
    refine ⟨result, table', hrea, ?_, ?_⟩
    · intro p hp
      exact .of_matches (hres p hp).2 hbel
    · exact h.replace_other hfor hrep fun e he => (hent e he).1
  · refine ⟨.none, table, ?_, by simp, h⟩
    rw [not_or] at hmem
    obtain ⟨hloo, hnoM⟩ := hmem
    have hany : ¬ (table.bucket (ip4AssembleHash packet.head)).any
        (fun e => e.matches packet.head) := by
      rw [List.any_eq_true, ← List.find?_isSome]
      exact hloo
    simp only [ip4Reassemble, hany, hnoM, Bool.false_eq_true, if_false, Bool.not_false, if_true]

variable [DecidableEq ι]

lemma TableHolds.replace (h : TableHolds R split seen table) (hdis : Distinct split)
    (hsame : packet.head.SamePacket (split i).head) {entry : Option AssembleEntry}
    {seen' : Finset ℕ} (hrep : Replaced table table' packet.head entry)
    (hnone : entry = .none → seen' = ∅)
    (hsome : ∀ e, entry = .some e → Holds R (split i) seen' e)
    (hmis : seen' ⊂ Finset.range (split i).frames.length) :
    TableHolds R split (Function.update seen i seen') table' := by
  have hloo : table'.lookup (split i).head = entry := by
    rw [← hsame.lookup_eq, hrep.same]
  have hoth : ∀ j, j ≠ i → table'.lookup (split j).head = table.lookup (split j).head := by
    intro j hj
    apply hrep.other
    intro hsam'
    apply hj
    apply hdis
    obtain ⟨h₁, h₂, h₃, h₄⟩ := hsame
    obtain ⟨h₁', h₂', h₃', h₄'⟩ := hsam'
    exact ⟨h₁'.symm.trans h₁, h₂'.symm.trans h₂, h₃'.symm.trans h₃, h₄'.symm.trans h₄⟩
  refine ⟨hrep.unique, hrep.sound h.sound fun e he => (hsome e he).sound, ?_, ?_, ?_⟩
  · intro j
    by_cases hj : j = i
    · subst hj
      rw [Function.update_self]
      exact hmis
    · rw [Function.update_of_ne hj]
      exact h.missing j
  · intro j
    by_cases hj : j = i
    · subst hj
      rw [Function.update_self, hloo]
      exact hnone
    · rw [Function.update_of_ne hj, hoth j hj]
      exact h.none j
  · intro j e
    by_cases hj : j = i
    · subst hj
      rw [Function.update_self, hloo]
      exact hsome e
    · rw [Function.update_of_ne hj, hoth j hj]
      exact h.some j e

lemma TableHolds.arrive (h : TableHolds R split seen table) (hdis : Distinct split)
    (hR : ReceivedFrom split R) (hrec : R packet) (hpac : Carries (split i) k packet)
    {allocations : Allocations} (hmem : allocations.Succeed) :
    ∃ result table', ip4Reassemble allocations table packet = .ok (result, table') ∧
      if insert k (seen i) = Finset.range (split i).frames.length then
        (∃ p, result = .some p ∧ p.buf.bytes = (split i).packet.bytes) ∧
          TableHolds R split (Function.update seen i ∅) table'
      else result = .none ∧
        TableHolds R split (Function.update seen i (insert k (seen i))) table' := by
  have hhol := h.entryFor hpac.same
  have hpro := h.missing i
  by_cases hk : k ∈ seen i
  · have hrun := hhol.again hpac hk allocations.buffer
    obtain ⟨table', hrea, hrep⟩ :=
      ip4Reassemble_eq h.unique (.inr hmem.1) hrun (fun e he => by cases he; rfl)
    refine ⟨.none, table', hrea, ?_⟩
    rw [Finset.insert_eq_self.mpr hk, if_neg hpro.ne]
    refine ⟨rfl, h.replace hdis hpac.same hrep (by simp) ?_ hpro⟩
    intro e he
    cases he
    exact hhol
  · obtain ⟨assemble', hnew, hkey, hrun⟩ := hhol.new hrec hpac hk allocations.buffer
    have hsub : insert k (seen i) ⊆ Finset.range (split i).frames.length :=
      Finset.insert_subset (Finset.mem_range.mpr hpac.lt) hpro.subset
    have hcom := hnew.complete_iff hsub
    by_cases hall : insert k (seen i) = Finset.range (split i).frames.length
    · obtain ⟨hne, hfull⟩ := hcom.mpr hall
      obtain ⟨result, hdel, hres, hisS⟩ :=
        deliver_complete allocations.buffer hnew.sound hR.sound hne hfull
      rw [hdel] at hrun
      obtain ⟨table', hrea, hrep⟩ :=
        ip4Reassemble_eq h.unique (.inr hmem.1) hrun (by simp)
      have hends : ∀ last, assemble'.fragments.getLast? = .some last →
          last.info.stop = assemble'.totalLen := by
        intro last hlast
        have hzero : 0 ∈ insert k (seen i) := by
          grind
        obtain ⟨p, hp, hp0⟩ := hnew.carried 0 hzero
        obtain ⟨k', -, hlas⟩ := hnew.carries last (List.mem_of_getLast? hlast)
        have hle := hnew.sound.inOrder.stop_le hlast hp
        rw [hp0.sound.stop_eq, hlas.sound.stop_eq, hp0.stop_zero] at hle
        rw [hnew.totalLen_eq, if_pos hzero]
        have hmin := hlas.stop_min
        omega
      obtain ⟨p, rfl⟩ := Option.isSome_iff_exists.mp (hisS hmem.2 hends)
      obtain ⟨hass, hbel⟩ := hres p rfl
      refine ⟨.some p, table', hrea, ?_⟩
      rw [if_pos hall]
      refine ⟨⟨p, rfl, ?_⟩, ?_⟩
      · exact hass.bytes_eq (.of_matches hbel hnew.belongs) (hR.carries i)
      · apply h.replace hdis hpac.same hrep (fun _ => rfl) (by simp)
        grind
    · rw [deliver_incomplete allocations.buffer (fun hc => hall (hcom.mp hc))] at hrun
      obtain ⟨table', hrea, hrep⟩ := ip4Reassemble_eq h.unique (.inr hmem.1) hrun
        (fun e he => by cases he; exact hkey)
      refine ⟨.none, table', hrea, ?_⟩
      rw [if_neg hall]
      refine ⟨rfl, h.replace hdis hpac.same hrep (by simp) ?_ ?_⟩
      · intro e he
        cases he
        exact hnew
      · exact hsub.ssubset_of_ne hall

/-! ### Runs -/

/-- A fragment that reaches `Ip4Reassemble`. -/
structure Arrival (ι : Type*) where
  /-- The packet of the family and the number of the frame; nothing for another packet. -/
  source : Option (ι × ℕ)
  allocations : Allocations
  packet : Packet

/-- What `Ip4Reassemble` returns for one fragment after the other. -/
def reassembleAll : AssembleTable → List (Arrival ι) →
    Except Halt (List (Option Packet) × AssembleTable)
  | table, [] => .ok ([], table)
  | table, arrival :: arrivals => do
    let (result, table) ← ip4Reassemble arrival.allocations table arrival.packet
    let (results, table) ← reassembleAll table arrivals
    return (result :: results, table)

/-- The fragment is a frame of a packet of the family, and the pool has memory for it; or it is a
fragment of another packet. -/
def Arrival.Valid (split : ι → Split) (arrival : Arrival ι) : Prop :=
  match arrival.source with
  | .some (i, k) => Carries (split i) k arrival.packet ∧ arrival.allocations.Succeed
  | .none => arrival.packet.Sound ∧ ∀ i, ¬ arrival.packet.head.SamePacket (split i).head

/-- The fragments of other packets are accepted by the table they meet. -/
def OthersAccepted : AssembleTable → List (Arrival ι) → Prop
  | _, [] => True
  | table, arrival :: arrivals => (arrival.source = .none → table.Accepts arrival.packet) ∧
    match ip4Reassemble arrival.allocations table arrival.packet with
    | .ok (_, table') => OthersAccepted table' arrivals
    | .error _ => True

instance decidableOthersAccepted :
    ∀ (table : AssembleTable) (arrivals : List (Arrival ι)), Decidable (OthersAccepted table arrivals)
  | _, [] => isTrue trivial
  | table, arrival :: arrivals =>
    match h : ip4Reassemble arrival.allocations table arrival.packet with
    | .ok (_, table') =>
      have := decidableOthersAccepted table' arrivals
      decidable_of_iff ((arrival.source = .none → table.Accepts arrival.packet) ∧
        OthersAccepted table' arrivals) (by simp [OthersAccepted, h])
    | .error _ => decidable_of_iff (arrival.source = .none → table.Accepts arrival.packet)
        (by simp [OthersAccepted, h])

/-- What has to come out: with the frame that completes the frames seen since the packet came out
last, the packet; with another frame, nothing; with a fragment of another packet, at most that
packet. -/
def Expected (split : ι → Split) :
    (ι → Finset ℕ) → List (Arrival ι) → List (Option Packet) → Prop
  | _, [], results => results = []
  | _, _ :: _, [] => False
  | seen, arrival :: arrivals, result :: results =>
    match arrival.source with
    | .some (i, k) =>
      if insert k (seen i) = Finset.range (split i).frames.length then
        (∃ p, result = .some p ∧ p.buf.bytes = (split i).packet.bytes) ∧
          Expected split (Function.update seen i ∅) arrivals results
      else result = .none ∧
        Expected split (Function.update seen i (insert k (seen i))) arrivals results
    | .none => (∀ p, result = .some p → p.head.SamePacket arrival.packet.head) ∧
      Expected split seen arrivals results

lemma TableHolds.run (h : TableHolds R split seen table) (hdis : Distinct split)
    (hR : ReceivedFrom split R) (arrivals : List (Arrival ι))
    (hrec : ∀ arrival ∈ arrivals, R arrival.packet)
    (hval : ∀ arrival ∈ arrivals, arrival.Valid split)
    (hacc : OthersAccepted table arrivals) :
    ∃ results table', reassembleAll table arrivals = .ok (results, table') ∧
      Expected split seen arrivals results := by
  induction arrivals generalizing table seen with
  | nil => exact ⟨[], table, rfl, rfl⟩
  | cons arrival arrivals ih =>
    obtain ⟨hacce, hrest⟩ := hacc
    have hpac := hrec arrival (by simp)
    have hfst := hval arrival (by simp)
    have ih := fun seen table h hacc => @ih seen table h
      (fun a ha => hrec a (by simp [ha])) (fun a ha => hval a (by simp [ha])) hacc
    unfold Arrival.Valid at hfst
    unfold Expected
    cases hsou : arrival.source with
    | none =>
      rw [hsou] at hfst
      obtain ⟨result, table₁, hrun, hres, hhol⟩ :=
        h.arrive_other hR hpac hfst.2 (hacce hsou) arrival.allocations
      rw [hrun] at hrest
      obtain ⟨results, table₂, hall, hexp⟩ := ih seen table₁ hhol hrest
      refine ⟨result :: results, table₂, ?_, ?_⟩
      · simp only [reassembleAll, hrun, hall, bind, Except.bind, pure, Except.pure]
      · simp only [hsou]
        exact ⟨hres, hexp⟩
    | some frame =>
      obtain ⟨i, k⟩ := frame
      rw [hsou] at hfst
      obtain ⟨result, table₁, hrun, hres⟩ :=
        h.arrive hdis hR hpac hfst.1 hfst.2
      rw [hrun] at hrest
      by_cases hcom : insert k (seen i) = Finset.range (split i).frames.length
      · rw [if_pos hcom] at hres
        obtain ⟨results, table₂, hall, hexp⟩ := ih _ table₁ hres.2 hrest
        refine ⟨result :: results, table₂, ?_, ?_⟩
        · simp only [reassembleAll, hrun, hall, bind, Except.bind, pure, Except.pure]
        grind
      · rw [if_neg hcom] at hres
        obtain ⟨results, table₂, hall, hexp⟩ := ih _ table₁ hres.2 hrest
        refine ⟨result :: results, table₂, ?_, ?_⟩
        · simp only [reassembleAll, hrun, hall, bind, Except.bind, pure, Except.pure]
        grind

omit [DecidableEq ι] in
lemma receivedFrom_arrivals {arrivals : List (Arrival ι)} (hdis : Distinct split)
    (hval : ∀ arrival ∈ arrivals, arrival.Valid split) :
    ReceivedFrom split fun p => ∃ arrival ∈ arrivals, arrival.packet = p := by
  constructor
  · rintro p ⟨arrival, hmem, rfl⟩
    have h := hval arrival hmem
    unfold Arrival.Valid at h
    cases hsou : arrival.source with
    | none =>
      rw [hsou] at h
      exact h.1
    | some frame =>
      rw [hsou] at h
      exact h.1.sound
  · rintro i p ⟨arrival, hmem, rfl⟩ hsame
    have h := hval arrival hmem
    unfold Arrival.Valid at h
    cases hsou : arrival.source with
    | none =>
      rw [hsou] at h
      exact absurd hsame (h.2 i)
    | some frame =>
      rw [hsou] at h
      obtain ⟨h₁, h₂, h₃, h₄⟩ := h.1.same
      obtain ⟨h₁', h₂', h₃', h₄'⟩ := hsame
      have heq : frame.1 = i := hdis frame.1 i
        ⟨h₁.symm.trans h₁', h₂.symm.trans h₂', h₃.symm.trans h₃', h₄.symm.trans h₄'⟩
      subst heq
      exact ⟨frame.2, h.1⟩

/-- Frames of split packets in any order, repeated and mixed with fragments of other packets: each
packet comes out with the last missing frame, not before, and again only after all its frames have
arrived again. -/
theorem split_packets_reassembled (split : ι → Split) (hdistinct : Distinct split)
    (arrivals : List (Arrival ι)) (hvalid : ∀ arrival ∈ arrivals, arrival.Valid split)
    (haccepted : OthersAccepted ip4InitAssembleTable arrivals) :
    ∃ results table, reassembleAll ip4InitAssembleTable arrivals = .ok (results, table) ∧
      Expected split (fun _ => ∅) arrivals results := by
  have hempty : TableHolds (fun p => ∃ arrival ∈ arrivals, arrival.packet = p) split
      (fun _ => ∅) ip4InitAssembleTable := by
    constructor
    · intro index
      exact List.Pairwise.nil
    · intro index e he
      cases he
    · intro i
      rw [Finset.empty_ssubset, Finset.nonempty_range_iff]
      have := (split i).num_spec.1
      omega
    · intro i _
      rfl
    · intro i e he
      cases he
  exact hempty.run hdistinct (receivedFrom_arrivals hdistinct hvalid) arrivals
    (fun arrival hmem => ⟨arrival, hmem, rfl⟩) hvalid haccepted

end Family

/-- The buffer with one block. -/
def blockOf (data : List UInt8) : NetBuf := ⟨[netbufSetBlockOp data data.length], data.length⟩

lemma wellFormed_blockOf {data : List UInt8} (h : data.length < 2 ^ 32) :
    (blockOf data).WellFormed := by
  constructor
  · simp [blockOf]
  · intro op hop
    obtain rfl := List.mem_singleton.mp hop
    exact wellFormed_netbufSetBlockOp (Nat.le_refl _)
  · simp [blockOf]
  · exact h

def tenBytes : NetBuf := blockOf [1, 2, 3, 4, 5, 6, 7, 8, 9, 10]

/-- Frames of eight bytes behind a head of twenty. -/
def tenBytesSplit : Split where
  packet := tenBytes
  head := ⟨4, 5, 30, 1, 0, 17, 2, 3⟩
  maxPacketSize := 8
  headLen := 20
  allocation := fun _ => ⟨.some fun _ => 0, true, true⟩
  frames :=
    [(0x0001, ⟨[headSpaceBlock 60 fun _ => 0, netbufSetBlockOp [9, 10] 2], 2⟩),
      (0x2000, ⟨[⟨[1, 2, 3, 4, 5, 6, 7, 8, 9, 10], 10, 0, 8, 8⟩], 8⟩)]
  wellFormed := wellFormed_blockOf (by decide)
  splits := by decide
  unit := by decide
  limit := by decide
  frames_eq := by decide +kernel

/-- The fragment with the given field and data, as it reaches `Ip4Reassemble`. -/
def fragmentOf (id : ℕ) (field : BitVec 16) (data : List UInt8) : Packet where
  head := ⟨4, 5, 20 + data.length, id, field, 17, 2, 3⟩
  info :=
    let start : ℤ := (field &&& ip4HeadOffsetMask).toNat * 8
    ⟨0, 1, start, start + data.length, data.length⟩
  buf := blockOf data

def frameArrival (k : ℕ) (field : BitVec 16) (data : List UInt8) : Arrival Unit :=
  ⟨.some ((), k), ⟨true, .some fun _ => 0, true, true⟩, fragmentOf 1 field data⟩

def lastFrame : Arrival Unit := frameArrival 0 0x0001 [9, 10]

def firstFrame : Arrival Unit := frameArrival 1 0x2000 [1, 2, 3, 4, 5, 6, 7, 8]

lemma valid_lastFrame : lastFrame.Valid fun _ => tenBytesSplit := by
  refine ⟨⟨⟨_, rfl, by rfl⟩, wellFormed_blockOf (by decide), ?_, rfl, rfl, rfl⟩, rfl, rfl, rfl, rfl⟩
  exact ⟨rfl, rfl, rfl, rfl⟩

lemma valid_firstFrame : firstFrame.Valid fun _ => tenBytesSplit := by
  refine ⟨⟨⟨_, rfl, by rfl⟩, wellFormed_blockOf (by decide), ?_, rfl, rfl, rfl⟩, rfl, rfl, rfl, rfl⟩
  exact ⟨rfl, rfl, rfl, rfl⟩

/-- The first frame twice, a fragment of another packet, and the last frame. -/
theorem split_packets_reassembled_tenBytes :
    let other : Arrival Unit :=
      ⟨.none, ⟨true, .some fun _ => 0, true, true⟩, fragmentOf 2 0x2000 [0, 0, 0, 0, 0, 0, 0, 0]⟩
    let arrivals := [firstFrame, other, firstFrame, lastFrame]
    ∃ results table, reassembleAll ip4InitAssembleTable arrivals = .ok (results, table) ∧
      Expected (fun _ => tenBytesSplit) (fun _ => ∅) arrivals results := by
  intro other arrivals
  have hother : other.Valid fun _ => tenBytesSplit := by
    refine ⟨⟨by decide, rfl, rfl, by decide, wellFormed_blockOf (by decide)⟩, ?_⟩
    intro _ hsame
    exact absurd (show 2 = 1 from hsame.2.2.1) (by decide)
  apply split_packets_reassembled
  · intro i j _
    rfl
  · grind [valid_firstFrame, valid_lastFrame]
  · decide

/-- Each frame arrives, and each of them once more: the packet comes out twice. -/
theorem reassembled_twice :
    (∀ arrival ∈ [lastFrame, firstFrame, lastFrame, firstFrame],
      arrival.Valid fun _ => tenBytesSplit) ∧
    (reassembleAll ip4InitAssembleTable [lastFrame, firstFrame, lastFrame, firstFrame]).map
        (fun r => r.1.map fun result => result.map fun p => p.buf.bytes) =
      .ok [.none, .some tenBytes.bytes, .none, .some tenBytes.bytes] := by
  constructor
  · grind [valid_lastFrame, valid_firstFrame]
  · decide

end Edk2.Ip4
