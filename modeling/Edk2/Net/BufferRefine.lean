import Edk2.Net.BufferBuild

/-!
# The net buffer routines refine list operations

`NetbufAllocSpace`, `NetbufTrim`, `NetbufCopy` and the routines on queues against the list
operations they stand for, and all of them together. `NetbufAllocSpace` does not notice that the
total size of the buffer wraps around.
-/

namespace Edk2.Net

open Window

variable {nbuf : NetBuf} {offset len headSpace headLen : ℕ} {fromHead : Bool}

/-- The space in the block that the space is taken from. -/
def NetBuf.room (nbuf : NetBuf) (len : ℕ) (fromHead : Bool) : ℕ :=
  ((nbuf.blockOp[allocIndex nbuf len fromHead]?).map
    (if fromHead then NetBlockOp.headspace else NetBlockOp.tailspace)).getD 0

lemma allocIndex_head (h : nbuf.WellFormed) (len : ℕ) :
    ∃ pre op post, nbuf.blockOp = pre ++ op :: post ∧ allocIndex nbuf len true = pre.length ∧
      blockSize pre = 0 := by
  unfold allocIndex
  by_cases hzero : nbuf.totalSize = 0
  · obtain ⟨op, post, hspl⟩ := List.exists_cons_of_ne_nil h.nonempty
    exact ⟨[], op, post, hspl, by simp [hzero], rfl⟩
  · have htot := h.total
    have hlt := h.lt
    obtain ⟨pre, op, post, place, hspl, hget, hle, -⟩ :=
      getByteLoop_split nbuf.blockOp 0 0 le_rfl (by omega) (by omega)
    have hpre : blockSize pre = 0 := by omega
    have hbyte : netbufGetByte nbuf 0 = some (pre.length, place) := by
      simp [hget, netbufGetByte]
      omega
    simp only [hzero, hbyte, if_false, if_true, Option.map_some, Option.getD_some]
    split_ifs with hsho
    · rcases List.eq_nil_or_concat pre with rfl | ⟨pre', op', rfl⟩
      · simp at hsho
      grind [blockSize_append]
    · exact ⟨pre, op, post, hspl, rfl, hpre⟩

lemma allocIndex_tail (h : nbuf.WellFormed) (len : ℕ) :
    ∃ pre op post, nbuf.blockOp = pre ++ op :: post ∧ allocIndex nbuf len false = pre.length ∧
      blockSize post = 0 := by
  have htot := h.total
  unfold allocIndex
  by_cases hzero : nbuf.totalSize = 0
  · obtain ⟨op, post, hspl⟩ := List.exists_cons_of_ne_nil h.nonempty
    refine ⟨[], op, post, hspl, by simp [hzero], ?_⟩
    rw [hspl, blockSize_cons] at htot
    omega
  · have hlt := h.lt
    obtain ⟨pre, op, post, place, hspl, hget, hle, hlast⟩ :=
      getByteLoop_split nbuf.blockOp 0 0 (Nat.zero_le (nbuf.totalSize - 1)) (by omega) (by omega)
    rw [hspl, blockSize_append, blockSize_cons] at htot
    have hpost : blockSize post = 0 := by omega
    have hbyte : netbufGetByte nbuf (nbuf.totalSize - 1) = some (pre.length, place) := by
      simp [hget, netbufGetByte]
      omega
    simp only [hzero, hbyte, if_false, Bool.false_eq_true, Option.map_some, Option.getD_some]
    split_ifs with hsho
    · cases post with
      | nil => simp [hspl] at hsho
      | cons op' post' =>
        refine ⟨pre ++ [op], op', post', by simpa using hspl, by simp, ?_⟩
        rw [blockSize_cons] at hpost
        omega
    · exact ⟨pre, op, post, hspl, rfl, hpost⟩

lemma blockBytes_of_blockSize_eq_zero {ops : List NetBlockOp} (hops : BlocksWellFormed ops)
    (h : blockSize ops = 0) : blockBytes ops = [] :=
  List.eq_nil_of_length_eq_zero (by rw [hops.length_bytes, h])

/-- `NetbufAllocSpace` puts the space in front of the data or behind it, or there is not enough
room for it. -/
def AllocSpaceSound (nbuf : NetBuf) (len : ℕ) (fromHead : Bool) : Prop :=
  ∃ answer nbuf', netbufAllocSpace nbuf len fromHead = .ok (answer, nbuf') ∧
    (answer = none ↔ nbuf.room len fromHead < len) ∧ (answer = none → nbuf' = nbuf) ∧
    ∀ place, answer = some place → nbuf'.WellFormed ∧
      ∃ op space, nbuf'.blockOp[place.1]? = some op ∧ space = window op.memory place.2 len ∧
        space.length = len ∧
        nbuf'.bytes = if fromHead then space ++ nbuf.bytes else nbuf.bytes ++ space

lemma allocHead_block {op : NetBlockOp} (hop : op.WellFormed) (h : len ≤ op.head)
    (hlt : op.size + len < 2 ^ 32) :
    let op' := { op with head := op.head - len, size := u32 (op.size + len) }
    op'.WellFormed ∧ op'.size = op.size + len ∧
      op'.bytes = window op.memory (op.head - len) len ++ op.bytes := by
  have hsize := hop.size_eq
  have hhead := hop.head_le
  have htail := hop.tail_le
  have hins := hop.inside
  have hsum : u32 (op.size + len) = op.size + len := u32_of_lt hlt
  refine ⟨⟨?_, htail, hins, ?_⟩, hsum, ?_⟩
  · dsimp only
    omega
  · dsimp only
    omega
  · simp only [NetBlockOp.bytes, NetBlockOp.read, hsum, Nat.add_zero, window]
    rw [Nat.add_comm op.size len, List.take_add, List.drop_drop, Nat.sub_add_cancel h]

lemma allocTail_block {op : NetBlockOp} (hop : op.WellFormed) (h : len ≤ op.tailspace)
    (hlt : op.size + len < 2 ^ 32) :
    let op' := { op with tail := op.tail + len, size := u32 (op.size + len) }
    op'.WellFormed ∧ op'.size = op.size + len ∧
      op'.bytes = op.bytes ++ window op.memory op.tail len := by
  have hsize := hop.size_eq
  have hhead := hop.head_le
  have htail := hop.tail_le
  have hins := hop.inside
  unfold NetBlockOp.tailspace at h
  have hsum : u32 (op.size + len) = op.size + len := u32_of_lt hlt
  refine ⟨⟨?_, ?_, hins, ?_⟩, hsum, ?_⟩
  · dsimp only
    omega
  · dsimp only
    omega
  · dsimp only
    omega
  · simp only [NetBlockOp.bytes, NetBlockOp.read, hsum, Nat.add_zero, window]
    rw [List.take_add, List.drop_drop, show op.head + op.size = op.tail by omega]

lemma get_middle (pre post : List NetBlockOp) (op : NetBlockOp) :
    (pre ++ op :: post)[pre.length]? = some op := by simp

lemma set_middle (pre post : List NetBlockOp) (op op' : NetBlockOp) :
    (pre ++ op :: post).set pre.length op' = pre ++ op' :: post := by simp

lemma allocSpaceSound_head (h : nbuf.WellFormed) (hpos : 0 < len)
    (hfits : nbuf.room len true < len ∨ nbuf.totalSize + len < 2 ^ 32) :
    AllocSpaceSound nbuf len true := by
  obtain ⟨pre, op, post, hspl, hind, hpre⟩ := allocIndex_head h len
  have hget : nbuf.blockOp[pre.length]? = some op := hspl ▸ get_middle pre post op
  have hroom : nbuf.room len true = op.head := by
    simp [NetBuf.room, hind, hget, NetBlockOp.headspace]
  rw [hroom] at hfits
  have hrun : netbufAllocSpace nbuf len true = if op.head < len then .ok (none, nbuf)
      else .ok (some (pre.length, op.head - len),
        ⟨nbuf.blockOp.set pre.length
          { op with head := op.head - len, size := u32 (op.size + len) },
          u32 (nbuf.totalSize + len)⟩) := by
    simp [netbufAllocSpace, Nat.pos_iff_ne_zero.mp hpos, hind, hget, NetBlockOp.headspace]
  by_cases hsho : op.head < len
  · rw [if_pos hsho] at hrun
    exact ⟨none, nbuf, hrun, by simp [hroom, hsho], fun _ => rfl, by simp⟩
  · rw [if_neg hsho, hspl, set_middle] at hrun
    have hfits := hfits.resolve_left hsho
    have htot := h.total
    have hblo := h.blocks
    rw [hspl, blocksWellFormed_append, blocksWellFormed_cons] at hblo
    obtain ⟨hprew, hop, hpost⟩ := hblo
    rw [hspl, blockSize_append, blockSize_cons] at htot
    obtain ⟨hwf, hsize, hbyt⟩ := allocHead_block hop (Nat.le_of_not_lt hsho) (by omega)
    refine ⟨_, _, hrun, by simp [hroom, hsho], by simp, ?_⟩
    rintro place hpla
    obtain rfl := Option.some.inj hpla
    have hlen : op.head ≤ op.memory.length :=
      le_trans hop.head_le (le_trans hop.tail_le hop.inside)
    refine ⟨⟨by simp, ?_, ?_, u32_lt _⟩, _, _, get_middle _ _ _, rfl, length_window_of_le ?_, ?_⟩
    · grind [blocksWellFormed_append, blocksWellFormed_cons]
    · grind [u32_of_lt, blockSize_append, blockSize_cons]
    · dsimp only
      omega
    · have hnil := blockBytes_of_blockSize_eq_zero hprew hpre
      simp only [NetBuf.bytes, hspl, blockBytes_append, blockBytes_cons, hnil, hbyt,
        List.nil_append, List.append_assoc, if_true]

lemma allocSpaceSound_tail (h : nbuf.WellFormed) (hpos : 0 < len)
    (hfits : nbuf.room len false < len ∨ nbuf.totalSize + len < 2 ^ 32) :
    AllocSpaceSound nbuf len false := by
  obtain ⟨pre, op, post, hspl, hind, hpost⟩ := allocIndex_tail h len
  have hget : nbuf.blockOp[pre.length]? = some op := hspl ▸ get_middle pre post op
  have hroom : nbuf.room len false = op.tailspace := by
    simp [NetBuf.room, hind, hget]
  rw [hroom] at hfits
  have hrun : netbufAllocSpace nbuf len false = if op.tailspace < len then .ok (none, nbuf)
      else .ok (some (pre.length, op.tail),
        ⟨nbuf.blockOp.set pre.length
          { op with tail := op.tail + len, size := u32 (op.size + len) },
          u32 (nbuf.totalSize + len)⟩) := by
    simp [netbufAllocSpace, Nat.pos_iff_ne_zero.mp hpos, hind, hget]
  by_cases hsho : op.tailspace < len
  · rw [if_pos hsho] at hrun
    exact ⟨none, nbuf, hrun, by simp [hroom, hsho], fun _ => rfl, by simp⟩
  · rw [if_neg hsho, hspl, set_middle] at hrun
    have hfits := hfits.resolve_left hsho
    have htot := h.total
    have hblo := h.blocks
    rw [hspl, blocksWellFormed_append, blocksWellFormed_cons] at hblo
    obtain ⟨hpre, hop, hpostw⟩ := hblo
    rw [hspl, blockSize_append, blockSize_cons] at htot
    obtain ⟨hwf, hsize, hbyt⟩ := allocTail_block hop (Nat.le_of_not_lt hsho) (by omega)
    refine ⟨_, _, hrun, by simp [hroom, hsho], by simp, ?_⟩
    rintro place hpla
    obtain rfl := Option.some.inj hpla
    refine ⟨⟨by simp, ?_, ?_, u32_lt _⟩, _, _, get_middle _ _ _, rfl, length_window_of_le ?_, ?_⟩
    · grind [blocksWellFormed_append, blocksWellFormed_cons]
    · grind [u32_of_lt, blockSize_append, blockSize_cons]
    · have := hwf.tail_le
      have := hwf.inside
      dsimp only at *
      omega
    · have hnil := blockBytes_of_blockSize_eq_zero hpostw hpost
      simp only [NetBuf.bytes, hspl, blockBytes_append, blockBytes_cons, hnil, hbyt,
        List.append_nil, List.append_assoc, Bool.false_eq_true, if_false]

lemma total_lt_of_wellFormed {place : ℕ × ℕ} {nbuf' : NetBuf} (h : nbuf.WellFormed)
    (hrun : netbufAllocSpace nbuf len fromHead = .ok (some place, nbuf')) (hwf : nbuf'.WellFormed) :
    nbuf.totalSize + len < 2 ^ 32 := by
  obtain ⟨op, hget⟩ : ∃ op, nbuf.blockOp[allocIndex nbuf len fromHead]? = some op := by
    grind [netbufAllocSpace]
  obtain ⟨hlt, -⟩ := List.getElem?_eq_some_iff.mp hget
  have hop : op.WellFormed := h.blocks op (List.mem_of_getElem? hget)
  -- the block that is changed, with its size in natural numbers
  obtain ⟨op', hbloc, hsize⟩ : ∃ op', nbuf'.blockOp =
      nbuf.blockOp.set (allocIndex nbuf len fromHead) op' ∧
      (op'.WellFormed → op'.size = op.size + len) := by
    have hsize := hop.size_eq
    have hhead := hop.head_le
    unfold netbufAllocSpace at hrun
    simp only [hget] at hrun
    split_ifs at hrun with hzero hside hsho hsho
    · simp at hrun
    · obtain ⟨-, rfl⟩ := Prod.mk.inj (Except.ok.inj hrun)
      refine ⟨_, rfl, fun hwf => ?_⟩
      have := hwf.size_eq
      have := hwf.head_le
      unfold NetBlockOp.headspace at hsho
      dsimp only at *
      omega
    · simp at hrun
    · obtain ⟨-, rfl⟩ := Prod.mk.inj (Except.ok.inj hrun)
      refine ⟨_, rfl, fun hwf => ?_⟩
      have := hwf.size_eq
      dsimp only at *
      omega
  obtain ⟨pre, post, hspl, hlen⟩ : ∃ pre post, nbuf.blockOp = pre ++ op :: post ∧
      pre.length = allocIndex nbuf len fromHead := by
    refine ⟨nbuf.blockOp.take (allocIndex nbuf len fromHead),
      nbuf.blockOp.drop (allocIndex nbuf len fromHead + 1), ?_, ?_⟩
    · obtain ⟨hlt, rfl⟩ := List.getElem?_eq_some_iff.mp hget
      simp
    · simp only [List.length_take]
      omega
  have htot := h.total
  have htot' := hwf.total
  have hblo := hwf.blocks
  rw [hbloc, hspl, ← hlen, set_middle] at htot' hblo
  rw [blocksWellFormed_append, blocksWellFormed_cons] at hblo
  rw [hspl, blockSize_append, blockSize_cons] at htot
  rw [blockSize_append, blockSize_cons, hsize hblo.2.1] at htot'
  have := hwf.lt
  omega

lemma allocSpaceSound_iff (h : nbuf.WellFormed) :
    AllocSpaceSound nbuf len fromHead ↔
      0 < len ∧ (nbuf.room len fromHead < len ∨ nbuf.totalSize + len < 2 ^ 32) := by
  constructor
  · rintro ⟨answer, nbuf', hrun, hnone, -, hspec⟩
    have hpos : 0 < len := by
      grind [Nat.pos_iff_ne_zero, netbufAllocSpace]
    refine ⟨hpos, ?_⟩
    cases answer with
    | none => exact .inl (hnone.mp rfl)
    | some place => exact .inr (total_lt_of_wellFormed h hrun (hspec place rfl).1)
  · rintro ⟨hpos, hfits⟩
    cases fromHead with
    | true => exact allocSpaceSound_head h hpos hfits
    | false => exact allocSpaceSound_tail h hpos hfits

/-- `NetbufTrim` drops bytes at one end, as many as there are. -/
def TrimSound (nbuf : NetBuf) (len : ℕ) (fromHead : Bool) : Prop :=
  ∃ nbuf', netbufTrim nbuf len fromHead = .ok (min len nbuf.totalSize, nbuf') ∧
    nbuf'.WellFormed ∧ nbuf'.totalSize = nbuf.totalSize - len ∧
    nbuf'.bytes =
      if fromHead then nbuf.bytes.drop len else nbuf.bytes.take (nbuf.totalSize - len)

lemma trimSound (h : nbuf.WellFormed) (len : ℕ) (fromHead : Bool) :
    TrimSound nbuf len fromHead := by
  have htot := h.total
  have hlt := h.lt
  have hleng := h.length_bytes
  unfold TrimSound netbufTrim
  by_cases hnot : len = 0 ∨ nbuf.totalSize = 0
  · grind
  · rw [if_neg hnot]
    have hmin : (if nbuf.totalSize < len then nbuf.totalSize else len) = min len nbuf.totalSize := by
      split_ifs <;> omega
    have hdrop : nbuf.bytes.drop (min len nbuf.totalSize) = nbuf.bytes.drop len := by
      grind [Nat.min_eq_left, Nat.min_eq_right, List.drop_of_length_le]
    simp only [hmin]
    cases fromHead with
    | true =>
      obtain ⟨ops, hrun, hwf, hlen, hsize, hbyt⟩ := trimLoop_head h.blocks
        (min len nbuf.totalSize) 0 (by omega) (by omega) (by omega)
      rw [Nat.zero_add] at hrun
      simp only [if_true, hrun, bind, Except.bind, pure, Except.pure]
      refine ⟨_, rfl, ⟨?_, hwf, by rw [hsize, htot], by dsimp only; omega⟩, by dsimp only; omega,
        ?_⟩
      · grind
      · exact hbyt.trans hdrop
    | false =>
      obtain ⟨ops, hrun, hwf, hlen, hsize, hbyt⟩ := trimLoop_tail
        (fun op hop => h.blocks op (List.mem_reverse.mp hop))
        (min len nbuf.totalSize) 0 (by omega) (by rw [blockSize_reverse]; omega) (by omega)
      rw [Nat.zero_add] at hrun
      simp only [Bool.false_eq_true, if_false, hrun, bind, Except.bind, pure, Except.pure]
      rw [blockSize_reverse] at hsize hbyt
      rw [List.reverse_reverse] at hbyt
      refine ⟨_, rfl, ⟨?_, ?_, ?_, by dsimp only; omega⟩, by dsimp only; omega, ?_⟩
      · grind [List.reverse_eq_nil_iff.mp, List.eq_nil_of_length_eq_zero]
      · exact fun op hop => hwf op (List.mem_reverse.mp hop)
      · dsimp only
        rw [blockSize_reverse, hsize, htot]
      · refine hbyt.trans ?_
        rw [htot, show nbuf.totalSize - min len nbuf.totalSize = nbuf.totalSize - len by omega]
        rfl

lemma netbufCopy_eq (h : nbuf.WellFormed) (offset len : ℕ) :
    netbufCopy nbuf offset len =
      .ok (window nbuf.bytes offset len, (window nbuf.bytes offset len).length) := by
  have htot := h.total
  have hlt := h.lt
  have hlen := h.length_bytes
  unfold netbufCopy
  by_cases hnot : len = 0 ∨ nbuf.totalSize ≤ offset
  · grind [length_window, List.length_nil, List.eq_nil_of_length_eq_zero]
  · rw [if_neg hnot]
    have hmin : (if nbuf.totalSize - offset < len then nbuf.totalSize - offset else len) =
        min len (nbuf.bytes.length - offset) := by
      split_ifs <;> omega
    rw [← window_min, length_window_of_le (by omega)]
    simp only [hmin]
    obtain ⟨pre, op, post, hspl, hskip, hcur, hop⟩ :=
      skipBlocks_split nbuf.blockOp 0 (Nat.zero_le offset) (by omega) (by omega)
    rw [Nat.zero_add] at hskip hcur hop
    have hblo := h.blocks
    rw [hspl, blocksWellFormed_append, blocksWellFormed_cons] at hblo
    obtain ⟨hpre, hopwf, hpost⟩ := hblo
    rw [hspl, blockSize_append, blockSize_cons] at htot
    have hprel := hpre.length_bytes
    have hopl := hopwf.length_bytes
    have hbyt : nbuf.bytes = blockBytes pre ++ (op.bytes ++ blockBytes post) := by
      rw [NetBuf.bytes, hspl, blockBytes_append, blockBytes_cons]
    have hwin : ∀ n, window nbuf.bytes offset n =
        window (op.bytes ++ blockBytes post) (offset - blockSize pre) n := by
      intro n
      rw [hbyt, show offset = (blockBytes pre).length + (offset - blockSize pre) by omega,
        window_append_right, ← hprel, Nat.add_sub_cancel_left]
    rw [hskip, hwin]
    simp only [sub32_of_le hcur (show offset < 2 ^ 32 by omega),
      sub32_of_le (show offset - blockSize pre ≤ op.size by omega) (by omega)]
    split_ifs with hone
    · rw [NetBlockOp.read_eq (by omega), window_append_left (by omega)]
    · rw [copyLoop_eq hpost (by omega), NetBlockOp.read_eq (by omega),
        window_append_across (by omega) (by omega), window_of_le (by omega), hopl]
      simp only [Except.ok.injEq, Prod.mk.injEq, true_and]
      rw [u32_of_lt (by omega)]
      omega

/-! ### Queues -/

/-- The bytes of a queue. -/
def NetBufQueue.bytes (que : NetBufQueue) : List UInt8 := bufListBytes que.bufList

structure NetBufQueue.WellFormed (que : NetBufQueue) : Prop where
  buffers : BufListWellFormed que.bufList
  size_eq : (bufListBytes que.bufList).length = que.bufSize
  lt : que.bufSize < 2 ^ 32
  num_eq : que.bufNum = que.bufList.length

@[simp] lemma bufListBytes_cons (nbuf : NetBuf) (nbufs : List NetBuf) :
    bufListBytes (nbuf :: nbufs) = nbuf.bytes ++ bufListBytes nbufs := rfl

@[simp] lemma bufListBytes_append (nbufs nbufs' : List NetBuf) :
    bufListBytes (nbufs ++ nbufs') = bufListBytes nbufs ++ bufListBytes nbufs' :=
  List.flatMap_append

lemma bufListWellFormed_cons {nbufs : List NetBuf} :
    BufListWellFormed (nbuf :: nbufs) ↔ nbuf.WellFormed ∧ BufListWellFormed nbufs := by
  simp [BufListWellFormed]

lemma skipBuffers_split {offset : ℕ} {nbufs : List NetBuf} (hwf : BufListWellFormed nbufs) (cur : ℕ)
    (hcur : cur ≤ offset) (h : offset < cur + (bufListBytes nbufs).length)
    (hlt : cur + (bufListBytes nbufs).length < 2 ^ 32) :
    ∃ pre nbuf post, nbufs = pre ++ nbuf :: post ∧
      skipBuffers offset nbufs cur = (nbuf :: post, cur + (bufListBytes pre).length) ∧
      cur + (bufListBytes pre).length ≤ offset ∧
      offset < cur + (bufListBytes pre).length + nbuf.totalSize := by
  induction nbufs generalizing cur with
  | nil =>
    simp only [bufListBytes, List.flatMap_nil, List.length_nil] at h
    omega
  | cons nbuf nbufs ih =>
    rw [bufListWellFormed_cons] at hwf
    have hlen := hwf.1.length_bytes
    simp only [bufListBytes_cons, List.length_append, hlen] at h hlt
    simp only [skipBuffers, u32_of_lt (show cur + nbuf.totalSize < 2 ^ 32 by omega)]
    split_ifs with hnbuf
    · exact ⟨[], nbuf, nbufs, rfl, by simp [bufListBytes], by simpa [bufListBytes] using hcur,
        by simpa [bufListBytes] using hnbuf⟩
    · obtain ⟨pre, nbuf', post, rfl, hskip, hle, hlt'⟩ := ih hwf.2 _ (Nat.le_of_not_lt hnbuf)
        (by omega) (by omega)
      refine ⟨nbuf :: pre, nbuf', post, rfl, ?_, ?_, ?_⟩
      · rw [hskip, bufListBytes_cons, List.length_append, hlen, Nat.add_assoc]
      · rw [bufListBytes_cons, List.length_append, hlen]
        omega
      · rw [bufListBytes_cons, List.length_append, hlen]
        omega

lemma queCopyLoop_eq {nbufs : List NetBuf} (hwf : BufListWellFormed nbufs)
    (h : len ≤ (bufListBytes nbufs).length) :
    queCopyLoop nbufs len = .ok ((bufListBytes nbufs).take len, len) := by
  induction nbufs generalizing len with
  | nil =>
    simp only [bufListBytes, List.flatMap_nil, List.length_nil, Nat.le_zero] at h
    simp [queCopyLoop, h, bufListBytes]
  | cons nbuf nbufs ih =>
    rw [bufListWellFormed_cons] at hwf
    have hlen := hwf.1.length_bytes
    simp only [bufListBytes_cons, List.length_append, hlen] at h
    simp only [queCopyLoop, netbufCopy_eq hwf.1, window_zero]
    split_ifs with hzero hfull
    · simp [hzero]
    · rw [ih hwf.2 (by omega)]
      simp only [bind, Except.bind, pure, Except.pure, bufListBytes_cons, Except.ok.injEq,
        Prod.mk.injEq]
      refine ⟨?_, by omega⟩
      rw [List.take_append, ← hlen, List.take_length,
        List.take_of_length_le (show nbuf.bytes.length ≤ len by omega)]
    · simp only [bind, Except.bind, pure, Except.pure, bufListBytes_cons, Except.ok.injEq,
        Prod.mk.injEq, and_true]
      rw [List.take_append_of_le_length (by omega)]

lemma netbufQueCopy_eq {que : NetBufQueue} (h : que.WellFormed) (offset len : ℕ) :
    netbufQueCopy que offset len =
      .ok (window que.bytes offset len, (window que.bytes offset len).length) := by
  have hsize : que.bytes.length = que.bufSize := h.size_eq
  have hlt := h.lt
  unfold netbufQueCopy
  by_cases hnot : len = 0 ∨ que.bufSize ≤ offset
  · have hemp : window que.bytes offset len = [] := by
      apply List.eq_nil_of_length_eq_zero
      rw [length_window]
      omega
    rw [if_pos hnot, hemp, List.length_nil]
  · rw [if_neg hnot]
    have hmin : (if que.bufSize - offset < len then que.bufSize - offset else len) =
        min len (que.bytes.length - offset) := by
      split_ifs <;> omega
    rw [← window_min, length_window_of_le (by omega)]
    simp only [hmin]
    have hlist : (bufListBytes que.bufList).length = que.bufSize := h.size_eq
    obtain ⟨pre, nbuf, post, hspl, hskip, hcur, hnbuf⟩ :=
      skipBuffers_split h.buffers 0 (Nat.zero_le offset) (by omega) (by omega)
    rw [Nat.zero_add] at hskip hcur hnbuf
    have hwf := h.buffers
    rw [hspl] at hwf
    have hnbu : nbuf.WellFormed := hwf nbuf (by simp)
    have hpost : BufListWellFormed post := fun nbuf hmem => hwf nbuf (by simp [hmem])
    have hbyt : que.bytes = bufListBytes pre ++ (nbuf.bytes ++ bufListBytes post) := by
      rw [NetBufQueue.bytes, hspl, bufListBytes_append, bufListBytes_cons]
    have hlen := hnbu.length_bytes
    have hsum := congrArg List.length hbyt
    rw [List.length_append, List.length_append, hsize, hlen] at hsum
    have hwin : ∀ n, window que.bytes offset n =
        window (nbuf.bytes ++ bufListBytes post) (offset - (bufListBytes pre).length) n := by
      intro n
      rw [hbyt, show offset = (bufListBytes pre).length +
        (offset - (bufListBytes pre).length) by omega, window_append_right, Nat.add_sub_cancel_left]
    rw [hskip, hwin]
    simp only [sub32_of_le hcur (show offset < 2 ^ 32 by omega),
      sub32_of_le (show offset - (bufListBytes pre).length ≤ nbuf.totalSize by omega)
        hnbu.lt, netbufCopy_eq hnbu]
    split_ifs with hone
    · rw [window_append_left (by omega), length_window_of_le (by omega)]
    · rw [queCopyLoop_eq hpost (by omega), window_append_across (by omega) (by omega),
        window_of_le (by omega), hlen]
      simp only [bind, Except.bind, pure, Except.pure, Except.ok.injEq, Prod.mk.injEq, true_and]
      rw [u32_of_lt (by omega)]
      omega

lemma queTrimLoop_spec {nbufs : List NetBuf} (hwf : BufListWellFormed nbufs)
    (h : len ≤ (bufListBytes nbufs).length) :
    ∃ nbufs' removed, queTrimLoop nbufs len = .ok (nbufs', removed, len) ∧
      BufListWellFormed nbufs' ∧ nbufs'.length + removed = nbufs.length ∧
      bufListBytes nbufs' = (bufListBytes nbufs).drop len := by
  induction nbufs generalizing len with
  | nil =>
    simp only [bufListBytes, List.flatMap_nil, List.length_nil, Nat.le_zero] at h
    exact ⟨[], 0, by simp [queTrimLoop, h], hwf, rfl, by simp [bufListBytes]⟩
  | cons nbuf nbufs ih =>
    rw [bufListWellFormed_cons] at hwf
    have hlen := hwf.1.length_bytes
    simp only [bufListBytes_cons, List.length_append, hlen] at h
    simp only [queTrimLoop]
    split_ifs with hfull hdone
    · refine ⟨nbufs, 1, by rw [show len = nbuf.totalSize by omega], hwf.2, rfl, ?_⟩
      rw [bufListBytes_cons, List.drop_append, List.drop_of_length_le (by omega), hlen, hdone]
      rfl
    · obtain ⟨nbufs', removed, hrun, hwf', hnum, hbyt⟩ := ih hwf.2 (show len - nbuf.totalSize ≤ _
        by omega)
      refine ⟨nbufs', removed + 1, ?_, hwf', by rw [List.length_cons]; omega, ?_⟩
      · rw [hrun]
        simp only [bind, Except.bind, pure, Except.pure, Except.ok.injEq, Prod.mk.injEq, true_and]
        omega
      · rw [hbyt, bufListBytes_cons, List.drop_append,
          List.drop_of_length_le (show nbuf.bytes.length ≤ len by omega), hlen]
        rfl
    · obtain ⟨nbuf', hrun, hwf', -, hbyt⟩ := trimSound hwf.1 len true
      refine ⟨nbuf' :: nbufs, 0, ?_, bufListWellFormed_cons.mpr ⟨hwf', hwf.2⟩, rfl, ?_⟩
      · rw [hrun]
        simp only [bind, Except.bind, pure, Except.pure, Except.ok.injEq, Prod.mk.injEq, true_and]
        omega
      · rw [bufListBytes_cons, hbyt, if_pos rfl, bufListBytes_cons,
          List.drop_append_of_le_length (by omega)]

/-- `NetbufQueTrim` drops bytes at the head, as many as there are. -/
def QueTrimSound (que : NetBufQueue) (len : ℕ) : Prop :=
  ∃ que', netbufQueTrim que len = .ok (min len que.bufSize, que') ∧ que'.WellFormed ∧
    que'.bytes = que.bytes.drop len

lemma queTrimSound {que : NetBufQueue} (h : que.WellFormed) (len : ℕ) : QueTrimSound que len := by
  have hsize : (bufListBytes que.bufList).length = que.bufSize := h.size_eq
  have hlt := h.lt
  unfold QueTrimSound netbufQueTrim
  by_cases hzero : len = 0
  · rw [if_pos hzero]
    exact ⟨que, by simp [hzero], h, by simp [hzero]⟩
  · rw [if_neg hzero]
    have hmin : (if que.bufSize < len then que.bufSize else len) = min len que.bufSize := by
      split_ifs <;> omega
    obtain ⟨nbufs, removed, hrun, hwf, hnum, hbyt⟩ :=
      queTrimLoop_spec h.buffers (show min len que.bufSize ≤ _ by omega)
    simp only [hmin, hrun, bind, Except.bind, pure, Except.pure]
    rw [u32_of_lt (show min len que.bufSize < 2 ^ 32 by omega)]
    refine ⟨_, rfl, ⟨hwf, ?_, by dsimp only; omega, ?_⟩, ?_⟩
    · simp only [hbyt, List.length_drop]
      omega
    · have := h.num_eq
      dsimp only
      omega
    · refine hbyt.trans ?_
      rcases Nat.le_total len que.bufSize with hle | hle
      · rw [Nat.min_eq_left hle]
        rfl
      · rw [Nat.min_eq_right hle, List.drop_of_length_le (by omega)]
        exact (List.drop_of_length_le (by rw [NetBufQueue.bytes]; omega)).symm

/-- Each routine computes its list operation, and exactly under the conditions given here. -/
theorem netbuf_refines_lists (nbuf : NetBuf) (ext : List NetFragment) (bufList : List NetBuf)
    (que : NetBufQueue) (offset len headSpace headLen : ℕ) (fromHead : Bool) :
    (nbuf.WellFormed → offset < 2 ^ 32 → len < 2 ^ 32 →
      (GetFragmentSound nbuf offset len headSpace ↔
        offset + len < 2 ^ 32 ∨ nbuf.totalSize < u32 (offset + len))) ∧
    (ext ≠ [] → ExtWellFormed ext → headSpace < 2 ^ 32 → headLen < 2 ^ 32 →
      (FromExtSound ext headSpace headLen ↔ ExtFits ext headSpace headLen)) ∧
    (BufListWellFormed bufList → headSpace < 2 ^ 32 → headLen < 2 ^ 32 →
      (FromBufListSound bufList headSpace headLen ↔
        bufListBytes bufList ≠ [] ∧ ExtFits (bufListFragments bufList) headSpace headLen)) ∧
    (nbuf.WellFormed → len < 2 ^ 32 →
      (AllocSpaceSound nbuf len fromHead ↔
        0 < len ∧ (nbuf.room len fromHead < len ∨ nbuf.totalSize + len < 2 ^ 32))) ∧
    (nbuf.WellFormed → TrimSound nbuf len fromHead) ∧
    (nbuf.WellFormed → netbufCopy nbuf offset len =
      .ok (window nbuf.bytes offset len, (window nbuf.bytes offset len).length)) ∧
    (que.WellFormed → netbufQueCopy que offset len =
      .ok (window que.bytes offset len, (window que.bytes offset len).length)) ∧
    (que.WellFormed → QueTrimSound que len) := by
  refine ⟨?_, ?_, ?_, ?_, ?_, ?_, ?_, ?_⟩
  · intro h hoffset hlen
    exact getFragmentSound_iff h hlen hoffset
  · intro hne hext hspace hlen
    exact fromExtSound_iff hne hext hspace hlen
  · intro h hspace hlen
    exact fromBufListSound_iff h hspace hlen
  · intro h _
    exact allocSpaceSound_iff h
  · intro h
    exact trimSound h len fromHead
  · intro h
    exact netbufCopy_eq h offset len
  · intro h
    exact netbufQueCopy_eq h offset len
  · intro h
    exact queTrimSound h len

/-- Two blocks of two bytes with an empty one between them. -/
def twoBlocks : NetBuf :=
  ⟨[⟨[1, 2], 2, 0, 2, 2⟩, ⟨[0], 1, 1, 1, 0⟩, ⟨[3, 4], 2, 0, 2, 2⟩], 4⟩

lemma wellFormed_twoBlocks : twoBlocks.WellFormed := by
  refine ⟨by decide, ?_, by decide, by decide⟩
  intro op hop
  simp only [twoBlocks, List.mem_cons, List.not_mem_nil, or_false] at hop
  rcases hop with rfl | rfl | rfl <;> exact ⟨by decide, by decide, by decide, by decide⟩

/-- A fragment over both blocks, and the same buffer trimmed and copied. -/
theorem netbuf_refines_twoBlocks :
    GetFragmentSound twoBlocks 1 2 0 ∧ TrimSound twoBlocks 3 false ∧
      netbufCopy twoBlocks 1 2 = .ok ([2, 3], 2) :=
  ⟨((netbuf_refines_lists twoBlocks [] [] ⟨[], 0, 0⟩ 1 2 0 0 false).1 wellFormed_twoBlocks (by decide)
      (by decide)).mpr (.inl (by decide)),
    (netbuf_refines_lists twoBlocks [] [] ⟨[], 0, 0⟩ 0 3 0 0 false).2.2.2.2.1 wellFormed_twoBlocks,
    (netbuf_refines_lists twoBlocks [] [] ⟨[], 0, 0⟩ 1 2 0 0 false).2.2.2.2.2.1 wellFormed_twoBlocks⟩

/-- One block of four bytes. -/
def oneBlock : NetBuf := ⟨[⟨[1, 2, 3, 4], 4, 0, 4, 4⟩], 4⟩

/-- `Offset + Len` wraps around to 1: the request is not refused, and the buffer that comes back
claims to hold `2 ^ 32 - 1` bytes. -/
theorem wrapped_fragment_not_refused :
    oneBlock.WellFormed ∧ ¬ GetFragmentSound oneBlock 2 (2 ^ 32 - 1) 0 ∧
      netbufGetFragment ⟨some fun _ => 0, true, true⟩ oneBlock 2 (2 ^ 32 - 1) 0 =
        .ok (some ⟨[⟨[3, 4], 2, 0, 2, 2⟩], 2 ^ 32 - 1⟩) := by
  have hwf : oneBlock.WellFormed := by
    refine ⟨by decide, ?_, by decide, by decide⟩
    intro op hop
    obtain rfl := List.mem_singleton.mp hop
    exact ⟨by decide, by decide, by decide, by decide⟩
  refine ⟨hwf, ?_, by rfl⟩
  rw [getFragmentSound_iff hwf (by decide) (by decide)]
  decide

end Edk2.Net
