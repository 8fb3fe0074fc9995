import Edk2.Lib.Window
import Edk2.Net.Buffer

/-!
# Net buffers as lists of bytes

A net buffer stands for the concatenation of its blocks. `NetBuf.WellFormed` is what every buffer
of the network stack satisfies; the loops of `NetBuffer.c` are specified block by block, each of them
by the place at which it splits the array of blocks.
-/

namespace Edk2.Net

open Window

/-- The data of a block. -/
def NetBlockOp.bytes (op : NetBlockOp) : List UInt8 := op.read 0 op.size

structure NetBlockOp.WellFormed (op : NetBlockOp) : Prop where
  head_le : op.head ≤ op.tail
  tail_le : op.tail ≤ op.blockTail
  inside : op.blockTail ≤ op.memory.length
  size_eq : op.size = op.tail - op.head

/-- The data of an array of blocks. -/
def blockBytes (ops : List NetBlockOp) : List UInt8 := ops.flatMap NetBlockOp.bytes

def blockSize (ops : List NetBlockOp) : ℕ := (ops.map NetBlockOp.size).sum

def BlocksWellFormed (ops : List NetBlockOp) : Prop := ∀ op ∈ ops, op.WellFormed

@[simp] lemma blockBytes_nil : blockBytes [] = [] := rfl

@[simp] lemma blockBytes_cons (op : NetBlockOp) (ops : List NetBlockOp) :
    blockBytes (op :: ops) = op.bytes ++ blockBytes ops := rfl

@[simp] lemma blockBytes_append (ops ops' : List NetBlockOp) :
    blockBytes (ops ++ ops') = blockBytes ops ++ blockBytes ops' := List.flatMap_append

@[simp] lemma blockSize_nil : blockSize [] = 0 := rfl

@[simp] lemma blockSize_cons (op : NetBlockOp) (ops : List NetBlockOp) :
    blockSize (op :: ops) = op.size + blockSize ops := by simp [blockSize]

@[simp] lemma blockSize_append (ops ops' : List NetBlockOp) :
    blockSize (ops ++ ops') = blockSize ops + blockSize ops' := by simp [blockSize]

@[simp] lemma blockSize_reverse (ops : List NetBlockOp) :
    blockSize ops.reverse = blockSize ops := by simp [blockSize]

lemma blocksWellFormed_nil : BlocksWellFormed [] := by simp [BlocksWellFormed]

@[simp] lemma blocksWellFormed_cons {op : NetBlockOp} {ops : List NetBlockOp} :
    BlocksWellFormed (op :: ops) ↔ op.WellFormed ∧ BlocksWellFormed ops := by
  simp [BlocksWellFormed]

@[simp] lemma blocksWellFormed_append {ops ops' : List NetBlockOp} :
    BlocksWellFormed (ops ++ ops') ↔ BlocksWellFormed ops ∧ BlocksWellFormed ops' := by
  grind [BlocksWellFormed]

lemma NetBlockOp.WellFormed.length_bytes {op : NetBlockOp} (h : op.WellFormed) :
    op.bytes.length = op.size := by
  have := h.head_le
  have := h.tail_le
  have := h.inside
  have := h.size_eq
  simp only [NetBlockOp.bytes, NetBlockOp.read, List.length_take, List.length_drop]
  omega

lemma BlocksWellFormed.length_bytes {ops : List NetBlockOp} (h : BlocksWellFormed ops) :
    (blockBytes ops).length = blockSize ops := by
  induction ops with
  | nil => rfl
  | cons op ops ih =>
    rw [blocksWellFormed_cons] at h
    simp [h.1.length_bytes, ih h.2]

lemma NetBlockOp.read_eq {op : NetBlockOp} {skip len : ℕ} (h : skip + len ≤ op.size) :
    op.read skip len = window op.bytes skip len := by
  have hread : ∀ skip len, op.read skip len = window op.memory (op.head + skip) len :=
    fun _ _ => rfl
  rw [NetBlockOp.bytes, hread, hread, window_window h, Nat.add_zero]

@[simp] lemma size_netbufSetBlockOp (bulk : List UInt8) (len : ℕ) :
    (netbufSetBlockOp bulk len).size = len := rfl

lemma bytes_netbufSetBlockOp (bulk : List UInt8) (len : ℕ) :
    (netbufSetBlockOp bulk len).bytes = bulk.take len := by
  simp [NetBlockOp.bytes, NetBlockOp.read, netbufSetBlockOp]

lemma wellFormed_netbufSetBlockOp {bulk : List UInt8} {len : ℕ} (h : len ≤ bulk.length) :
    (netbufSetBlockOp bulk len).WellFormed where
  head_le := Nat.zero_le _
  tail_le := le_rfl
  inside := h
  size_eq := rfl

/-- The bytes of a net buffer. -/
def NetBuf.bytes (nbuf : NetBuf) : List UInt8 := blockBytes nbuf.blockOp

structure NetBuf.WellFormed (nbuf : NetBuf) : Prop where
  nonempty : nbuf.blockOp ≠ []
  blocks : BlocksWellFormed nbuf.blockOp
  total : blockSize nbuf.blockOp = nbuf.totalSize
  lt : nbuf.totalSize < 2 ^ 32

lemma NetBuf.WellFormed.length_bytes {nbuf : NetBuf} (h : nbuf.WellFormed) :
    nbuf.bytes.length = nbuf.totalSize := h.blocks.length_bytes.trans h.total

/-! ### The loops -/

lemma findFirst_split {offset : ℕ} (ops : List NetBlockOp) (index cur : ℕ) (hcur : cur ≤ offset)
    (h : offset < cur + blockSize ops) (hlt : cur + blockSize ops < 2 ^ 32) :
    ∃ pre op post, ops = pre ++ op :: post ∧
      findFirst offset ops index cur = (index + pre.length, cur + blockSize pre) ∧
      cur + blockSize pre ≤ offset ∧ offset < cur + blockSize pre + op.size := by
  induction ops generalizing index cur with
  | nil =>
    simp only [blockSize_nil] at h
    omega
  | cons op ops ih =>
    simp only [blockSize_cons] at h hlt
    simp only [findFirst, u32_of_lt (show cur + op.size < 2 ^ 32 by omega)]
    split_ifs with hop
    · exact ⟨[], op, ops, rfl, by simp, by simpa using hcur, by simpa using hop⟩
    · obtain ⟨pre, op', post, rfl, hfind, hle, hlt'⟩ := ih (index + 1) _ (Nat.le_of_not_lt hop)
        (by omega) (by omega)
      grind [List.length_cons, blockSize_cons, Prod.mk.injEq]

lemma findLast_split {stop : ℕ} (ops : List NetBlockOp) (index cur : ℕ) (hcur : cur < stop)
    (h : stop ≤ cur + blockSize ops) (hlt : cur + blockSize ops < 2 ^ 32) :
    ∃ pre op post, ops = pre ++ op :: post ∧
      findLast stop ops index cur = (index + pre.length, stop - (cur + blockSize pre)) ∧
      cur + blockSize pre < stop ∧ stop ≤ cur + blockSize pre + op.size := by
  induction ops generalizing index cur with
  | nil =>
    simp only [blockSize_nil] at h
    omega
  | cons op ops ih =>
    simp only [blockSize_cons] at h hlt
    simp only [findLast, u32_of_lt (show cur + op.size < 2 ^ 32 by omega)]
    split_ifs with hop
    · simp [sub32_of_le (Nat.le_of_lt hcur) (by omega)]
      omega
    · obtain ⟨pre, op', post, rfl, hfind, hle, hlt'⟩ := ih (index + 1) _ (Nat.lt_of_not_le hop)
        (by omega) (by omega)
      grind [List.length_cons, blockSize_cons, Prod.mk.injEq]

lemma getByteLoop_split {offset : ℕ} (ops : List NetBlockOp) (loop len : ℕ) (hlen : len ≤ offset)
    (h : offset < len + blockSize ops) (hlt : len + blockSize ops < 2 ^ 32) :
    ∃ pre op post place, ops = pre ++ op :: post ∧
      getByteLoop offset ops loop len = some (loop + pre.length, place) ∧
      len + blockSize pre ≤ offset ∧ offset < len + blockSize pre + op.size := by
  induction ops generalizing loop len with
  | nil =>
    simp only [blockSize_nil] at h
    omega
  | cons op ops ih =>
    simp only [blockSize_cons] at h hlt
    simp only [getByteLoop, u32_of_lt (show len + op.size < 2 ^ 32 by omega)]
    split_ifs with hop
    · obtain ⟨pre, op', post, place, rfl, hfind, hle, hlt'⟩ := ih (loop + 1) _ hop (by omega)
        (by omega)
      refine ⟨op :: pre, op', post, place, rfl, ?_, ?_, ?_⟩
      · simp [hfind, List.length_cons, Option.some.injEq, Prod.mk.injEq, and_true]
        omega
      · simp only [blockSize_cons]
        omega
      · simp only [blockSize_cons]
        omega
    · exact ⟨[], op, ops, op.head + sub32 offset len, rfl, by simp, by simpa using hlen,
        by simpa using hop⟩

lemma skipBlocks_split {offset : ℕ} (ops : List NetBlockOp) (cur : ℕ) (hcur : cur ≤ offset)
    (h : offset < cur + blockSize ops) (hlt : cur + blockSize ops < 2 ^ 32) :
    ∃ pre op post, ops = pre ++ op :: post ∧
      skipBlocks offset ops cur = (op :: post, cur + blockSize pre) ∧
      cur + blockSize pre ≤ offset ∧ offset < cur + blockSize pre + op.size := by
  induction ops generalizing cur with
  | nil =>
    simp only [blockSize_nil] at h
    omega
  | cons op ops ih =>
    simp only [blockSize_cons] at h hlt
    simp only [skipBlocks, u32_of_lt (show cur + op.size < 2 ^ 32 by omega)]
    split_ifs with hzero hop
    · obtain ⟨pre, op', post, rfl, hfind, hle, hlt'⟩ := ih _ hcur (by omega) (by omega)
      refine ⟨op :: pre, op', post, rfl, ?_, ?_, ?_⟩
      · simpa [hzero] using hfind
      · simpa [hzero] using hle
      · simpa [hzero] using hlt'
    · exact ⟨[], op, ops, rfl, by simp, by simpa using hcur, by simpa using hop⟩
    · obtain ⟨pre, op', post, rfl, hfind, hle, hlt'⟩ := ih _ (Nat.le_of_not_lt hop) (by omega)
        (by omega)
      refine ⟨op :: pre, op', post, rfl, ?_, ?_, ?_⟩
      · simpa [Nat.add_assoc] using hfind
      · simpa [Nat.add_assoc] using hle
      · simpa [Nat.add_assoc] using hlt'

lemma copyLoop_eq {ops : List NetBlockOp} (hops : BlocksWellFormed ops) {len : ℕ}
    (h : len ≤ blockSize ops) : copyLoop ops len = ((blockBytes ops).take len, len) := by
  induction ops generalizing len with
  | nil =>
    simp only [blockSize_nil, Nat.le_zero] at h
    simp [copyLoop, h]
  | cons op ops ih =>
    rw [blocksWellFormed_cons] at hops
    simp only [blockSize_cons] at h
    have hlen := hops.1.length_bytes
    simp only [copyLoop]
    split_ifs with hop
    · rw [ih hops.2 (by omega), blockBytes_cons, List.take_append, hlen,
        List.take_of_length_le (show op.bytes.length ≤ len by omega)]
      simp only [Prod.mk.injEq]
      exact ⟨rfl, by omega⟩
    · rw [NetBlockOp.read_eq (by omega), window_zero, blockBytes_cons,
        List.take_append_of_le_length (by omega)]

lemma netblockTrim_head {op : NetBlockOp} (hop : op.WellFormed) {len : ℕ} (h : len ≤ op.size) :
    ∃ op', netblockTrim op len true = .ok op' ∧ op'.WellFormed ∧ op'.size = op.size - len ∧
      op'.bytes = op.bytes.drop len := by
  have hsize := hop.size_eq
  have hhead := hop.head_le
  refine ⟨{ op with size := op.size - len, head := op.head + len }, ?_, ?_, rfl, ?_⟩
  · simp [netblockTrim, Nat.not_lt.mpr h]
  · refine ⟨?_, hop.tail_le, hop.inside, ?_⟩
    · dsimp only
      omega
    · dsimp only
      omega
  · simp only [NetBlockOp.bytes, NetBlockOp.read, Nat.add_zero, List.drop_take, List.drop_drop]

lemma netblockTrim_tail {op : NetBlockOp} (hop : op.WellFormed) {len : ℕ} (h : len ≤ op.size) :
    ∃ op', netblockTrim op len false = .ok op' ∧ op'.WellFormed ∧ op'.size = op.size - len ∧
      op'.bytes = op.bytes.take (op.size - len) := by
  have hsize := hop.size_eq
  have hhead := hop.head_le
  have htail := hop.tail_le
  refine ⟨{ op with size := op.size - len, tail := op.tail - len }, ?_, ?_, rfl, ?_⟩
  · simp [netblockTrim, Nat.not_lt.mpr h]
  · refine ⟨?_, ?_, hop.inside, ?_⟩
    · dsimp only
      omega
    · dsimp only
      omega
    · dsimp only
      omega
  · simp only [NetBlockOp.bytes, NetBlockOp.read, Nat.add_zero, List.take_take]
    rw [Nat.min_eq_left (by omega)]

lemma NetBlockOp.bytes_of_size_eq_zero {op : NetBlockOp} (h : op.size = 0) : op.bytes = [] := by
  simp [NetBlockOp.bytes, NetBlockOp.read, h]

lemma trimLoop_head {ops : List NetBlockOp} (hops : BlocksWellFormed ops) (len trimmed : ℕ)
    (hpos : 0 < len) (h : len ≤ blockSize ops) (hlt : trimmed + len < 2 ^ 32) :
    ∃ ops', trimLoop true ops len trimmed = .ok (ops', trimmed + len) ∧ BlocksWellFormed ops' ∧
      ops'.length = ops.length ∧ blockSize ops' = blockSize ops - len ∧
      blockBytes ops' = (blockBytes ops).drop len := by
  induction ops generalizing len trimmed with
  | nil =>
    simp only [blockSize_nil] at h
    omega
  | cons op ops ih =>
    rw [blocksWellFormed_cons] at hops
    obtain ⟨hop, hrest⟩ := hops
    simp only [blockSize_cons] at h
    have hleng := hop.length_bytes
    simp only [trimLoop]
    split_ifs with hzero hfull
    · obtain ⟨ops', heq, hwf, hlen, hsize, hbyt⟩ := ih hrest _ _ hpos (by omega) hlt
      refine ⟨op :: ops', by simp [heq, bind, Except.bind, pure, Except.pure], ?_, by simp [hlen],
        by simp [hsize, hzero], ?_⟩
      · exact blocksWellFormed_cons.mpr ⟨hop, hwf⟩
      · simp [NetBlockOp.bytes_of_size_eq_zero hzero, hbyt]
    · obtain ⟨op', hop', hwf', hsiz', hbyt'⟩ := netblockTrim_head hop le_rfl
      obtain ⟨ops', heq, hwf, hlen, hsize, hbyt⟩ := ih hrest (len - op.size)
        (trimmed + op.size) (by omega) (by omega) (by omega)
      refine ⟨op' :: ops', ?_, blocksWellFormed_cons.mpr ⟨hwf', hwf⟩, by simp [hlen], ?_, ?_⟩
      · rw [u32_of_lt (by omega), hop', heq]
        simp only [bind, Except.bind, pure, Except.pure, Except.ok.injEq, Prod.mk.injEq, true_and]
        omega
      · simp only [blockSize_cons, hsiz', hsize]
        omega
      · rw [blockBytes_cons, blockBytes_cons, hbyt, hbyt', List.drop_append,
          List.drop_of_length_le (show op.bytes.length ≤ op.size by omega),
          List.drop_of_length_le (show op.bytes.length ≤ len by omega), hleng]
    · obtain ⟨op', hop', hwf', hsiz', hbyt'⟩ := netblockTrim_head hop (Nat.le_of_not_lt hfull)
      refine ⟨op' :: ops, ?_, blocksWellFormed_cons.mpr ⟨hwf', hrest⟩, rfl, ?_, ?_⟩
      · rw [u32_of_lt hlt, hop']
        rfl
      · simp only [blockSize_cons, hsiz']
        omega
      · rw [blockBytes_cons, blockBytes_cons, hbyt', List.drop_append_of_le_length (by omega)]

lemma trimLoop_tail {ops : List NetBlockOp} (hops : BlocksWellFormed ops) (len trimmed : ℕ)
    (hpos : 0 < len) (h : len ≤ blockSize ops) (hlt : trimmed + len < 2 ^ 32) :
    ∃ ops', trimLoop false ops len trimmed = .ok (ops', trimmed + len) ∧ BlocksWellFormed ops' ∧
      ops'.length = ops.length ∧ blockSize ops' = blockSize ops - len ∧
      blockBytes ops'.reverse = (blockBytes ops.reverse).take (blockSize ops - len) := by
  induction ops generalizing len trimmed with
  | nil =>
    simp only [blockSize_nil] at h
    omega
  | cons op ops ih =>
    rw [blocksWellFormed_cons] at hops
    obtain ⟨hop, hrest⟩ := hops
    simp only [blockSize_cons] at h
    have hleng := hop.length_bytes
    have hrev : (blockBytes ops.reverse).length = blockSize ops := by
      rw [BlocksWellFormed.length_bytes fun op h => hrest op (List.mem_reverse.mp h),
        blockSize_reverse]
    simp only [trimLoop]
    split_ifs with hzero hfull
    · obtain ⟨ops', heq, hwf, hlen, hsize, hbyt⟩ := ih hrest _ _ hpos (by omega) hlt
      refine ⟨op :: ops', by simp [heq, bind, Except.bind, pure, Except.pure], ?_, by simp [hlen],
        by simp [hsize, hzero], ?_⟩
      · exact blocksWellFormed_cons.mpr ⟨hop, hwf⟩
      · simp [NetBlockOp.bytes_of_size_eq_zero hzero, hbyt, hzero]
    · obtain ⟨op', hop', hwf', hsiz', hbyt'⟩ := netblockTrim_tail hop le_rfl
      obtain ⟨ops', heq, hwf, hlen, hsize, hbyt⟩ := ih hrest (len - op.size)
        (trimmed + op.size) (by omega) (by omega) (by omega)
      refine ⟨op' :: ops', ?_, blocksWellFormed_cons.mpr ⟨hwf', hwf⟩, by simp [hlen], ?_, ?_⟩
      · rw [u32_of_lt (by omega), hop', heq]
        simp only [bind, Except.bind, pure, Except.pure, Except.ok.injEq, Prod.mk.injEq, true_and]
        omega
      · simp only [blockSize_cons, hsiz', hsize]
        omega
      · simp only [List.reverse_cons, blockBytes_append, blockBytes_cons, blockBytes_nil,
          blockSize_cons, hbyt, NetBlockOp.bytes_of_size_eq_zero (hsiz'.trans (Nat.sub_self _))]
        rw [List.take_append_of_le_length (by omega), List.append_nil, List.append_nil]
        congr 1
        omega
    · obtain ⟨op', hop', hwf', hsiz', hbyt'⟩ := netblockTrim_tail hop (Nat.le_of_not_lt hfull)
      refine ⟨op' :: ops, ?_, blocksWellFormed_cons.mpr ⟨hwf', hrest⟩, rfl, ?_, ?_⟩
      · rw [u32_of_lt hlt, hop']
        rfl
      · simp only [blockSize_cons, hsiz']
        omega
      · simp only [List.reverse_cons, blockBytes_append, blockBytes_cons, blockBytes_nil,
          blockSize_cons, hbyt', List.append_nil]
        rw [List.take_append,
          List.take_of_length_le (show (blockBytes ops.reverse).length ≤ _ by omega), hrev]
        congr 2
        omega

end Edk2.Net
