import Edk2.Net.BufferSpec

/-!
# Building net buffers

`NetbufGetFragment` cuts a window out of a buffer, `NetbufFromExt` and `NetbufFromBufList`
concatenate. `NetbufGetFragment` computes `Offset + Len` in 32 bits before it compares the sum with
the size of the buffer, so a request far outside the buffer can get through the check;
`NetbufFromExt` notices neither that the total size wraps around nor that the length of the first
block does.
-/

namespace Edk2.Net

open Window

variable {nbuf : NetBuf} {allocation : Allocation} {offset len headSpace headLen : ℕ}

/-- Every allocation of the call succeeds. -/
def Allocation.Succeeds (allocation : Allocation) : Prop :=
  allocation.block.isSome ∧ allocation.struct ∧ allocation.table

lemma bytes_read_window {op : NetBlockOp} {skip : ℕ} (h : skip + len ≤ op.size) :
    (netbufSetBlockOp (op.memory.drop (op.head + skip)) len).bytes = window op.bytes skip len := by
  rw [bytes_netbufSetBlockOp, ← NetBlockOp.read_eq h]
  rfl

lemma wellFormed_read {op : NetBlockOp} (hop : op.WellFormed) {skip : ℕ}
    (h : skip + len ≤ op.size) :
    (netbufSetBlockOp (op.memory.drop (op.head + skip)) len).WellFormed := by
  have := hop.head_le
  have := hop.tail_le
  have := hop.inside
  have := hop.size_eq
  apply wellFormed_netbufSetBlockOp
  simp only [List.length_drop]
  omega

lemma bytes_copy {op : NetBlockOp} (hop : op.WellFormed) :
    (netbufSetBlockOp (op.memory.drop op.head) op.size).bytes = op.bytes := by
  have h := bytes_read_window (show 0 + op.size ≤ op.size by simp)
  rw [Nat.add_zero] at h
  rw [h, ← hop.length_bytes, window_all]

lemma copies_spec {ops : List NetBlockOp} (hops : BlocksWellFormed ops) :
    let copies := ops.map fun op => netbufSetBlockOp (op.memory.drop op.head) op.size
    BlocksWellFormed copies ∧ blockSize copies = blockSize ops ∧
      blockBytes copies = blockBytes ops := by
  induction ops with
  | nil => exact ⟨blocksWellFormed_nil, rfl, rfl⟩
  | cons op ops ih =>
    rw [blocksWellFormed_cons] at hops
    obtain ⟨hwf, hsize, hbyt⟩ := ih hops.2
    have hop := wellFormed_read hops.1 (show 0 + op.size ≤ op.size by simp)
    rw [Nat.add_zero] at hop
    grind [blocksWellFormed_cons, blockSize_cons, blockBytes_cons,
      size_netbufSetBlockOp, bytes_copy]

lemma fragmentBlocks_one (pre post : List NetBlockOp) {op : NetBlockOp} (hop : op.WellFormed)
    {skip : ℕ} (h : skip + len ≤ op.size) :
    let blocks := fragmentBlocks (pre ++ op :: post) op pre.length skip len pre.length len
    BlocksWellFormed blocks ∧ blockSize blocks = len ∧
      blockBytes blocks = window op.bytes skip len := by
  have hblo : fragmentBlocks (pre ++ op :: post) op pre.length skip len pre.length len =
      [netbufSetBlockOp (op.memory.drop (op.head + skip)) len] := by simp [fragmentBlocks]
  simp [hblo, wellFormed_read hop h, blocksWellFormed_nil, bytes_read_window h]

lemma fragmentBlocks_many (pre post : List NetBlockOp) {mid : List NetBlockOp} {op op' : NetBlockOp}
    (hop : op.WellFormed) (hmid : BlocksWellFormed mid) (hop' : op'.WellFormed) {skip lastLen : ℕ}
    (h : skip ≤ op.size) (h' : lastLen ≤ op'.size) :
    let blocks := fragmentBlocks (pre ++ op :: (mid ++ op' :: post)) op pre.length skip
      (op.size - skip) (pre.length + 1 + mid.length) lastLen
    BlocksWellFormed blocks ∧ blockSize blocks = op.size - skip + blockSize mid + lastLen ∧
      blockBytes blocks = op.bytes.drop skip ++ (blockBytes mid ++ op'.bytes.take lastLen) := by
  obtain ⟨hwf, hsize, hbyt⟩ := copies_spec hmid
  have hlast := bytes_read_window (show 0 + lastLen ≤ op'.size by omega)
  have hlas' := wellFormed_read hop' (show 0 + lastLen ≤ op'.size by omega)
  rw [Nat.add_zero] at hlast hlas'
  rw [window_zero] at hlast
  have hblo : fragmentBlocks (pre ++ op :: (mid ++ op' :: post)) op pre.length skip
      (op.size - skip) (pre.length + 1 + mid.length) lastLen =
      netbufSetBlockOp (op.memory.drop (op.head + skip)) (op.size - skip) ::
        (mid.map (fun op => netbufSetBlockOp (op.memory.drop op.head) op.size) ++
          [netbufSetBlockOp (op'.memory.drop op'.head) lastLen]) := by
    have hdrop : (pre ++ op :: (mid ++ op' :: post)).drop (pre.length + 1) = mid ++ op' :: post := by
      rw [List.drop_length_add_append]
      rfl
    have hdro' : (pre ++ op :: (mid ++ op' :: post)).drop (pre.length + 1 + mid.length) =
        op' :: post := by
      rw [← List.drop_drop, hdrop, List.drop_left]
    unfold fragmentBlocks
    rw [hdrop, hdro', if_pos (by omega), Nat.add_sub_cancel_left, List.take_left]
    rfl
  rw [hblo]
  refine ⟨?_, ?_, ?_⟩
  · simp only [blocksWellFormed_cons, blocksWellFormed_append]
    exact ⟨wellFormed_read hop (by omega), hwf, hlas', blocksWellFormed_nil⟩
  · simp only [blockSize_cons, blockSize_append, hsize, blockSize_nil, size_netbufSetBlockOp]
    omega
  · simp only [blockBytes_cons, blockBytes_append, hbyt, hlast, blockBytes_nil, List.append_nil]
    rw [bytes_read_window (by omega), window_of_le]
    rw [hop.length_bytes]
    omega

lemma netbufGetFragment_inside (h : nbuf.WellFormed) (hpos : 0 < len)
    (hle : offset + len ≤ nbuf.totalSize) (allocation : Allocation) (headSpace : ℕ) :
    ∃ blocks, BlocksWellFormed blocks ∧ blocks ≠ [] ∧ blockSize blocks = len ∧
      blockBytes blocks = window nbuf.bytes offset len ∧
      netbufGetFragment allocation nbuf offset len headSpace =
        .ok (childBuffer allocation headSpace len blocks) := by
  have hlt := h.lt
  have htot := h.total
  obtain ⟨pre, op, post, hspl, hfst, hcur, hop⟩ :=
    findFirst_split nbuf.blockOp 0 0 (Nat.zero_le offset) (by omega) (by omega)
  simp only [Nat.zero_add] at hfst hcur hop
  have hblo := h.blocks
  rw [hspl, blocksWellFormed_append, blocksWellFormed_cons] at hblo
  obtain ⟨hpre, hopwf, hpost⟩ := hblo
  have hbyt : nbuf.bytes = blockBytes pre ++ (op.bytes ++ blockBytes post) := by
    rw [NetBuf.bytes, hspl, blockBytes_append, blockBytes_cons]
  rw [hspl, blockSize_append, blockSize_cons] at htot
  have hlen := hpre.length_bytes
  have hoff : offset = (blockBytes pre).length + (offset - blockSize pre) := by omega
  have hskip : sub32 offset (blockSize pre) = offset - blockSize pre :=
    sub32_of_le hcur (by omega)
  have hrest : sub32 op.size (offset - blockSize pre) = op.size - (offset - blockSize pre) :=
    sub32_of_le (by omega) (by omega)
  have hget : nbuf.blockOp[pre.length]? = some op := by simp [hspl]
  have hwin : window nbuf.bytes offset len =
      window (op.bytes ++ blockBytes post) (offset - blockSize pre) len := by
    rw [hbyt, hoff, window_append_right, ← hlen, Nat.add_sub_cancel_left]
  -- the check and the first search are the same in both cases
  have hrun : netbufGetFragment allocation nbuf offset len headSpace =
      let stop := if op.size - (offset - blockSize pre) < len then
          findLast (offset + len) post (pre.length + 1) (blockSize pre + op.size)
        else (pre.length, len)
      let firstLen := if op.size - (offset - blockSize pre) < len then
        op.size - (offset - blockSize pre) else len
      if stop.1 < pre.length then .error .assert
      else .ok (childBuffer allocation headSpace len (fragmentBlocks nbuf.blockOp op pre.length
        (offset - blockSize pre) firstLen stop.1 stop.2)) := by
    unfold netbufGetFragment
    have hdrop : nbuf.blockOp.drop (pre.length + 1) = post := by
      rw [hspl, List.drop_length_add_append]
      rfl
    rw [u32_of_lt (by omega), if_neg (by omega), hfst]
    simp only [hget, hskip, hrest, hdrop, u32_of_lt (show blockSize pre + op.size < 2 ^ 32 by omega)]
  by_cases hmany : op.size - (offset - blockSize pre) < len
  · obtain ⟨mid, op', post', rfl, hlast, hcur', hop'⟩ := findLast_split post
      (pre.length + 1) (blockSize pre + op.size) (show _ < offset + len by omega) (by omega)
      (by omega)
    rw [blocksWellFormed_append, blocksWellFormed_cons] at hpost
    obtain ⟨hmid, hop'wf, -⟩ := hpost
    obtain ⟨hwf, hsize, hdata⟩ := fragmentBlocks_many pre post' hopwf hmid hop'wf
      (show offset - blockSize pre ≤ op.size by omega)
      (show offset + len - (blockSize pre + op.size + blockSize mid) ≤ op'.size by omega)
    simp only [if_pos hmany, hlast] at hrun
    rw [if_neg (by omega)] at hrun
    refine ⟨_, ?_, ?_, ?_, ?_, hrun⟩
    · rw [hspl]
      exact hwf
    · simp [fragmentBlocks]
    · rw [hspl, hsize]
      omega
    · have hlen' := hopwf.length_bytes
      have hmidl := hmid.length_bytes
      rw [hspl, hdata, hwin, window_append_across (by omega) (by omega), blockBytes_append,
        List.take_append, List.take_of_length_le (show (blockBytes mid).length ≤ _ by omega),
        blockBytes_cons, List.take_append_of_le_length (by rw [hop'wf.length_bytes]; omega)]
      congr 3
      omega
  · obtain ⟨hwf, hsize, hdata⟩ := fragmentBlocks_one pre post hopwf
      (show offset - blockSize pre + len ≤ op.size by omega)
    simp only [if_neg hmany] at hrun
    rw [if_neg (by omega)] at hrun
    refine ⟨_, ?_, ?_, ?_, ?_, hrun⟩
    · rw [hspl]
      exact hwf
    · simp [fragmentBlocks]
    · rw [hspl]
      exact hsize
    · rw [hspl, hdata, hwin, window_append_left]
      rw [hopwf.length_bytes]
      omega

lemma wellFormed_headSpaceBlock (headSpace : ℕ) (content : ℕ → UInt8) :
    (headSpaceBlock headSpace content).WellFormed where
  head_le := le_rfl
  tail_le := le_rfl
  inside := by simp [headSpaceBlock, netbufSetBlockOp, pool]
  size_eq := (Nat.sub_self _).symm

lemma childBuffer_spec {blocks : List NetBlockOp} {child : NetBuf} (hwf : BlocksWellFormed blocks)
    (hne : blocks ≠ []) (hsize : blockSize blocks = len) (hlt : len < 2 ^ 32)
    (h : childBuffer allocation headSpace len blocks = some child) :
    child.WellFormed ∧ child.bytes = blockBytes blocks := by
  unfold childBuffer at h
  split_ifs at h with hstr hspa
  · obtain ⟨content, -, rfl⟩ := Option.map_eq_some_iff.mp h
    have hzero : (headSpaceBlock headSpace content).size = 0 := rfl
    refine ⟨⟨by simp, ?_, ?_, hlt⟩, ?_⟩
    · exact blocksWellFormed_cons.mpr ⟨wellFormed_headSpaceBlock _ _, hwf⟩
    · simp [hzero, hsize]
    · simp [NetBuf.bytes, NetBlockOp.bytes_of_size_eq_zero hzero]
  · obtain rfl := Option.some.inj h
    exact ⟨⟨hne, hwf, hsize, hlt⟩, rfl⟩

lemma childBuffer_isSome (h : allocation.Succeeds) (headSpace len : ℕ)
    (blocks : List NetBlockOp) : (childBuffer allocation headSpace len blocks).isSome := by
  obtain ⟨hblo, hstr, -⟩ := h
  grind [childBuffer]

lemma netbufGetFragment_ne_none (h : allocation.Succeeds) (hpos : len ≠ 0)
    (hche : u32 (offset + len) ≤ nbuf.totalSize) :
    netbufGetFragment allocation nbuf offset len headSpace ≠ .ok none := by
  unfold netbufGetFragment
  rw [if_neg (by omega)]
  dsimp only
  split
  · simp
  · have hchi : ∀ blocks, childBuffer allocation headSpace len blocks ≠ none := fun blocks =>
      Option.isSome_iff_ne_none.mp (childBuffer_isSome h headSpace len blocks)
    split_ifs <;> simp [hchi]

/-- `NetbufGetFragment` refuses what lies outside of the buffer and returns a window otherwise. -/
def GetFragmentSound (nbuf : NetBuf) (offset len headSpace : ℕ) : Prop :=
  ∀ allocation, ∃ result, netbufGetFragment allocation nbuf offset len headSpace = .ok result ∧
    (len = 0 ∨ nbuf.totalSize < offset + len → result = none) ∧
    (0 < len → offset + len ≤ nbuf.totalSize → allocation.Succeeds → result.isSome) ∧
    ∀ child, result = some child →
      child.WellFormed ∧ child.bytes = window nbuf.bytes offset len

lemma getFragmentSound_of_fits (h : nbuf.WellFormed) (hlen : len < 2 ^ 32)
    (hfits : offset + len < 2 ^ 32 ∨ nbuf.totalSize < u32 (offset + len)) :
    GetFragmentSound nbuf offset len headSpace := by
  intro allocation
  by_cases hins : 0 < len ∧ offset + len ≤ nbuf.totalSize
  · obtain ⟨blocks, hwf, hne, hsize, hbyt, hrun⟩ :=
      netbufGetFragment_inside h hins.1 hins.2 allocation headSpace
    refine ⟨_, hrun, fun h => by omega, fun _ _ hs => childBuffer_isSome hs _ _ _, ?_⟩
    intro child hchi
    have hspec := childBuffer_spec hwf hne hsize hlen hchi
    exact ⟨hspec.1, hspec.2.trans hbyt⟩
  · refine ⟨none, ?_, fun _ => rfl, fun h₁ h₂ => absurd ⟨h₁, h₂⟩ hins, by simp⟩
    grind [u32_of_lt, netbufGetFragment]

lemma getFragmentSound_iff (h : nbuf.WellFormed) (hlen : len < 2 ^ 32) (hoff : offset < 2 ^ 32) :
    GetFragmentSound nbuf offset len headSpace ↔
      offset + len < 2 ^ 32 ∨ nbuf.totalSize < u32 (offset + len) := by
  constructor
  · intro hsou
    by_contra hfits
    rw [not_or, Nat.not_lt, Nat.not_lt] at hfits
    let memory : Allocation := ⟨some fun _ => 0, true, true⟩
    obtain ⟨result, hrun, hnone, -⟩ := hsou memory
    have := h.lt
    rw [hnone (.inr (by omega))] at hrun
    exact netbufGetFragment_ne_none ⟨rfl, rfl, rfl⟩ (by omega) hfits.2 hrun
  · exact getFragmentSound_of_fits h hlen

/-! ### `NetbufFromExt` -/

/-- The data of a fragment table. -/
def extBytes (ext : List NetFragment) : List UInt8 :=
  ext.flatMap fun fragment => fragment.bulk.take fragment.len

def extSize (ext : List NetFragment) : ℕ := (ext.map NetFragment.len).sum

/-- Every fragment has its bytes. -/
def ExtWellFormed (ext : List NetFragment) : Prop :=
  ∀ fragment ∈ ext, fragment.len ≤ fragment.bulk.length

@[simp] lemma extBytes_cons (fragment : NetFragment) (ext : List NetFragment) :
    extBytes (fragment :: ext) = fragment.bulk.take fragment.len ++ extBytes ext := rfl

@[simp] lemma extSize_cons (fragment : NetFragment) (ext : List NetFragment) :
    extSize (fragment :: ext) = fragment.len + extSize ext := by simp [extSize]

@[simp] lemma extWellFormed_cons {fragment : NetFragment} {ext : List NetFragment} :
    ExtWellFormed (fragment :: ext) ↔
      fragment.len ≤ fragment.bulk.length ∧ ExtWellFormed ext := by simp [ExtWellFormed]

lemma copyMem_ok {memory data : List UInt8} (h : offset + data.length ≤ memory.length) :
    copyMem memory offset data =
      .ok (memory.take offset ++ data ++ memory.drop (offset + data.length)) := if_pos h

lemma copyMem_window (memory data : List UInt8) (base copied : ℕ)
    (h : base + copied + data.length ≤ memory.length) :
    ∃ memory', copyMem memory (base + copied) data = .ok memory' ∧
      memory'.length = memory.length ∧
      window memory' base (copied + data.length) = window memory base copied ++ data := by
  refine ⟨_, copyMem_ok h, ?_, ?_⟩
  · simp only [List.length_append, List.length_take, List.length_drop]
    omega
  · have htake : (memory.take (base + copied)).length = base + copied := by
      simp only [List.length_take]
      omega
    have hdrop : (memory.take (base + copied)).drop base = window memory base copied := by
      rw [List.drop_take, Nat.add_sub_cancel_left]
      rfl
    rw [List.append_assoc, window_append_across (by omega) (by omega), htake, hdrop,
      show copied + data.length - (base + copied - base) = data.length by omega, List.take_left]

/-- What the loop leaves of the fragments it was given. -/
def HeadCopy.rest (copy : HeadCopy) (start : ℕ) (fragments : List NetFragment) :
    List NetFragment :=
  match copy.patch with
  | none => fragments.drop (copy.index - start)
  | some patch => patch :: fragments.drop (copy.index - start + 1)

/-- What the loop that copies the header does. -/
structure HeaderCopied (headSpace : ℕ) (fragments : List NetFragment) (copy copy' : HeadCopy) :
    Prop where
  index_le : copy.index ≤ copy'.index
  index_lt : copy'.patch.isSome → copy'.index < copy.index + fragments.length
  wellFormed : ExtWellFormed (copy'.rest copy.index fragments)
  split : ∃ data, extBytes fragments = data ++ extBytes (copy'.rest copy.index fragments) ∧
    data.length ≤ copy.len ∧ copy'.copied = copy.copied + data.length ∧
    copy'.totalLen = u32 (copy.totalLen + data.length) ∧
    extSize fragments = data.length + extSize (copy'.rest copy.index fragments) ∧
    window copy'.firstBlock headSpace copy'.copied =
      window copy.firstBlock headSpace copy.copied ++ data
  length_eq : copy'.firstBlock.length = copy.firstBlock.length

lemma u32_add_u32 (m n : ℕ) : u32 (u32 m + n) = u32 (m + n) := by
  unfold u32
  omega

lemma HeaderCopied.cons {fragment : NetFragment} {fragments : List NetFragment}
    {copy copy' : HeadCopy} {firstBlock : List UInt8}
    (h : HeaderCopied headSpace fragments { copy with
      firstBlock := firstBlock
      len := copy.len - fragment.len
      copied := u32 (copy.copied + fragment.len)
      totalLen := u32 (copy.totalLen + fragment.len)
      index := copy.index + 1 } copy')
    (hwin : window firstBlock headSpace (copy.copied + fragment.len) =
      window copy.firstBlock headSpace copy.copied ++ fragment.bulk.take fragment.len)
    (hleng : firstBlock.length = copy.firstBlock.length) (hfull : fragment.len ≤ copy.len)
    (hdata : (fragment.bulk.take fragment.len).length = fragment.len)
    (hcop : u32 (copy.copied + fragment.len) = copy.copied + fragment.len) :
    HeaderCopied headSpace (fragment :: fragments) copy copy' := by
  obtain ⟨hle, hlt, hwf, ⟨data, hbyt, hlen, hcop', htot, hsize, hwin'⟩, hlen'⟩ := h
  simp only [hcop] at hle hlt hwf hbyt hsize hcop' hlen htot hwin' hlen'
  have hrest : copy'.rest copy.index (fragment :: fragments) =
      copy'.rest (copy.index + 1) fragments := by
    unfold HeadCopy.rest
    rw [show copy'.index - copy.index = copy'.index - (copy.index + 1) + 1 by omega]
    rfl
  refine ⟨by omega, fun h => ?_, ?_, ⟨fragment.bulk.take fragment.len ++ data, ?_⟩, ?_⟩
  · have := hlt h
    simp only [List.length_cons]
    omega
  · rw [hrest]
    exact hwf
  · rw [hrest, extBytes_cons, hbyt, extSize_cons, hsize, List.length_append, hdata, hcop',
      htot, u32_add_u32]
    grind
  · rw [hlen', hleng]

lemma copyHeader_spec {fragments : List NetFragment} (hext : ExtWellFormed fragments)
    (copy : HeadCopy) (hpat : copy.patch = none) (hpos : 0 < copy.len)
    (hroom : headSpace + copy.copied + copy.len ≤ copy.firstBlock.length)
    (hlt : copy.copied + copy.len < 2 ^ 32) (htot : copy.totalLen < 2 ^ 32) :
    ∃ copy', copyHeader headSpace fragments copy = .ok copy' ∧
      HeaderCopied headSpace fragments copy copy' := by
  induction fragments generalizing copy with
  | nil =>
    refine ⟨copy, rfl, le_rfl, by simp [hpat], ?_, ⟨[], ?_⟩, rfl⟩
    · simp [HeadCopy.rest, hpat, ExtWellFormed]
    · simp [HeadCopy.rest, hpat, u32_of_lt htot]
  | cons fragment fragments ih =>
    rw [extWellFormed_cons] at hext
    obtain ⟨hbulk, hext⟩ := hext
    simp only [copyHeader]
    by_cases hfull : fragment.len ≤ copy.len
    · -- the whole fragment belongs to the header
      rw [if_pos hfull]
      have hdata : (fragment.bulk.take fragment.len).length = fragment.len := by
        simp only [List.length_take]
        omega
      obtain ⟨firstBlock, hwri, hlen, hwin⟩ := copyMem_window copy.firstBlock
        (fragment.bulk.take fragment.len) headSpace copy.copied (by omega)
      rw [hdata] at hwin
      simp only [hwri, bind, Except.bind, pure, Except.pure]
      have hcop : u32 (copy.copied + fragment.len) = copy.copied + fragment.len :=
        u32_of_lt (by omega)
      split_ifs with hdone
      · refine ⟨_, rfl, ?_, by simp [hpat], ?_, ⟨fragment.bulk.take fragment.len, ?_⟩, hlen⟩
        · simp
        · simpa [HeadCopy.rest, hpat] using hext
        grind [HeadCopy.rest, extBytes_cons, extSize_cons, Nat.add_sub_cancel_left, List.drop_one,
          List.tail_cons]
      · obtain ⟨copy', hrun, hcopy⟩ := ih hext
          { copy with
            firstBlock := firstBlock
            len := copy.len - fragment.len
            copied := u32 (copy.copied + fragment.len)
            totalLen := u32 (copy.totalLen + fragment.len)
            index := copy.index + 1 } hpat (by dsimp only; omega)
          (by dsimp only; rw [hcop]; omega) (by dsimp only; rw [hcop]; omega) (u32_lt _)
        refine ⟨copy', hrun, HeaderCopied.cons hcopy hwin hlen hfull hdata hcop⟩
    · -- the header ends in this fragment
      rw [if_neg hfull]
      have hdata : (fragment.bulk.take copy.len).length = copy.len := by
        simp only [List.length_take]
        omega
      obtain ⟨firstBlock, hwri, hlen, hwin⟩ := copyMem_window copy.firstBlock
        (fragment.bulk.take copy.len) headSpace copy.copied (by omega)
      rw [hdata] at hwin
      simp only [hwri, bind, Except.bind, pure, Except.pure]
      have hcop : u32 (copy.copied + copy.len) = copy.copied + copy.len := u32_of_lt (by omega)
      refine ⟨_, rfl, le_rfl, by simp, ?_, ⟨fragment.bulk.take copy.len, ?_⟩, hlen⟩
      · simp only [HeadCopy.rest, Nat.sub_self, Nat.zero_add, List.drop_one, List.tail_cons,
          extWellFormed_cons, List.length_drop]
        exact ⟨by omega, hext⟩
      · simp only [HeadCopy.rest, Nat.sub_self, Nat.zero_add, List.drop_one, List.tail_cons, hcop,
          hdata, extBytes_cons, extSize_cons]
        refine ⟨?_, le_rfl, trivial, trivial, by omega, hwin⟩
        rw [← List.append_assoc, ← List.take_add, Nat.add_sub_cancel' (by omega)]

lemma drop_patched (ext : List NetFragment) (copy : HeadCopy)
    (hlt : copy.patch.isSome → copy.index < ext.length) :
    (patchedTable ext copy).drop copy.index = copy.rest 0 ext := by
  unfold HeadCopy.rest patchedTable
  cases hpat : copy.patch with
  | none => rfl
  | some rest =>
    rw [hpat] at hlt
    have hlt := hlt rfl
    simp only [Nat.sub_zero]
    grind [List.drop_eq_getElem_cons, List.getElem_set_self, List.drop_set_of_lt]

lemma fragmentTable_spec {ext : List NetFragment} (hext : ExtWellFormed ext) (totalLen : ℕ)
    (htot : totalLen < 2 ^ 32) :
    BlocksWellFormed (fragmentTable ext totalLen).1 ∧
      blockSize (fragmentTable ext totalLen).1 = extSize ext ∧
      blockBytes (fragmentTable ext totalLen).1 = extBytes ext ∧
      (fragmentTable ext totalLen).2 = u32 (totalLen + extSize ext) := by
  induction ext generalizing totalLen with
  | nil => exact ⟨blocksWellFormed_nil, rfl, rfl, (u32_of_lt htot).symm⟩
  | cons fragment ext ih =>
    rw [extWellFormed_cons] at hext
    obtain ⟨hwf, hsize, hbyt, htot'⟩ := ih hext.2 (u32 (totalLen + fragment.len)) (u32_lt _)
    refine ⟨?_, ?_, ?_, ?_⟩
    · exact blocksWellFormed_cons.mpr ⟨wellFormed_netbufSetBlockOp hext.1, hwf⟩
    · exact (blockSize_cons _ _).trans (by rw [extSize_cons, ← hsize]; rfl)
    · exact (blockBytes_cons _ _).trans (by rw [extBytes_cons, ← hbyt, bytes_netbufSetBlockOp]; rfl)
    · rw [u32_add_u32, Nat.add_assoc] at htot'
      rw [extSize_cons]
      exact htot'

lemma headerBlock_spec (copy : HeadCopy) (hroom : headSpace + copy.copied ≤ copy.firstBlock.length)
    (hlt : headSpace + copy.copied < 2 ^ 32) :
    (headerBlock headSpace copy).WellFormed ∧ (headerBlock headSpace copy).size = copy.copied ∧
      (headerBlock headSpace copy).bytes = window copy.firstBlock headSpace copy.copied := by
  have hend : u32 (headSpace + copy.copied) = headSpace + copy.copied := u32_of_lt hlt
  refine ⟨⟨?_, le_rfl, ?_, ?_⟩, rfl, rfl⟩
  · simp [headerBlock, netbufSetBlockOp, hend]
  · simpa [headerBlock, netbufSetBlockOp, hend] using hroom
  · simp [headerBlock, netbufSetBlockOp, hend]

lemma consolidated_lt {ext : List NetFragment} (h : headLen < 2 ^ 32) :
    consolidated ext headLen < 2 ^ 32 := by
  unfold consolidated
  split
  · exact h
  · split_ifs
    · decide
    · exact h

lemma aggregateHeader_spec {ext : List NetFragment} (hext : ExtWellFormed ext) (content : ℕ → UInt8)
    {head : ℕ} (hroom : head = 0 ∨ head + headSpace < 2 ^ 32) (hhead : head < 2 ^ 32) :
    ∃ copy, aggregateHeader ext headSpace head content = .ok copy ∧
      HeaderCopied headSpace ext ⟨pool (u32 (head + headSpace)) content, head, 0, 0, 0, none⟩ copy ∧
      (head = 0 → copy.rest 0 ext = ext) := by
  let start : HeadCopy := ⟨pool (u32 (head + headSpace)) content, head, 0, 0, 0, none⟩
  unfold aggregateHeader
  by_cases hzero : head = 0
  · refine ⟨start, by rw [if_neg (by simpa using hzero)],
      ⟨le_rfl, by simp [start], ?_, ⟨[], ?_⟩, rfl⟩, fun _ => rfl⟩
    · simpa [HeadCopy.rest, start] using hext
    · simp [HeadCopy.rest, start, u32_of_lt]
  · have hroom := hroom.resolve_left hzero
    rw [if_pos hzero]
    obtain ⟨copy, hrun, hcopy⟩ : ∃ copy, copyHeader headSpace ext start = .ok copy ∧
        HeaderCopied headSpace ext start copy := by
      apply copyHeader_spec hext start rfl (Nat.pos_of_ne_zero hzero)
      · simp only [start, pool, List.length_map, List.length_range, u32_of_lt hroom]
        omega
      · simpa [start] using hhead
      · simp [start]
    exact ⟨copy, hrun, hcopy, fun h => absurd h hzero⟩

lemma extBuffer_spec {ext : List NetFragment} (hne : ext ≠ []) {content : ℕ → UInt8} {head : ℕ}
    (hroom : head = 0 ∨ head + headSpace < 2 ^ 32) (hspa : headSpace < 2 ^ 32) {copy : HeadCopy}
    (h : HeaderCopied headSpace ext
      ⟨pool (u32 (head + headSpace)) content, head, 0, 0, 0, none⟩ copy)
    (hrest : head = 0 → copy.rest 0 ext = ext) :
    let nbuf := extBuffer ext headSpace head copy
    nbuf.blockOp ≠ [] ∧ BlocksWellFormed nbuf.blockOp ∧ blockSize nbuf.blockOp = extSize ext ∧
      nbuf.bytes = extBytes ext ∧ nbuf.totalSize = u32 (extSize ext) := by
  have hpat := drop_patched ext copy (by simpa using h.index_lt)
  obtain ⟨-, -, hwf, ⟨data, hbyt, hlen, hcop, htot, hsize, hwin⟩, hleng⟩ := h
  simp only [Nat.zero_add] at hwf hbyt hsize hcop htot hlen hwin hleng
  have hsum : u32 (head + headSpace) = head + headSpace := u32_of_lt (by omega)
  have hsta : window (pool (u32 (head + headSpace)) content) headSpace 0 = [] := by
    simp [window]
  simp only [hsta, List.nil_append] at hwin
  obtain ⟨htab, htsi, htby, htto⟩ :=
    fragmentTable_spec hwf copy.totalLen (by rw [htot]; exact u32_lt _)
  have hfin : (fragmentTable (copy.rest 0 ext) copy.totalLen).2 = u32 (extSize ext) := by
    rw [htto, htot, u32_add_u32, hsize]
  have hfst : copy.firstBlock.length = head + headSpace := by
    simpa [pool, hsum] using hleng
  simp only [extBuffer, NetBuf.bytes, hsum, hpat]
  by_cases hblo : head + headSpace = 0
  · -- no first block: the header is empty
    have hdata : data = [] := List.eq_nil_of_length_eq_zero (by omega)
    subst hdata
    simp only [List.nil_append, List.length_nil, Nat.zero_add] at hbyt hsize
    rw [if_neg (by simpa using hblo)]
    refine ⟨?_, htab, by rw [htsi, hsize], by rw [htby, hbyt], hfin⟩
    rw [hrest (by omega)]
    simpa [fragmentTable] using hne
  · obtain ⟨hhwf, hhsi, hhby⟩ := headerBlock_spec copy
      (show headSpace + copy.copied ≤ _ by omega) (by omega)
    rw [if_pos hblo]
    refine ⟨by simp, blocksWellFormed_cons.mpr ⟨hhwf, htab⟩, ?_, ?_, hfin⟩
    · rw [blockSize_cons, hhsi, htsi, hcop, hsize]
    · rw [blockBytes_cons, hhby, hwin, htby, hbyt]

lemma netbufFromExt_run {ext : List NetFragment} (hne : ext ≠ []) (hext : ExtWellFormed ext)
    (hroom : consolidated ext headLen = 0 ∨ consolidated ext headLen + headSpace < 2 ^ 32)
    (hspa : headSpace < 2 ^ 32) (hlen : headLen < 2 ^ 32) (allocation : Allocation) :
    ∃ result table, netbufFromExt allocation ext headSpace headLen = .ok (result, table) ∧
      (allocation.Succeeds → result.isSome) ∧
      ∀ nbuf, result = some nbuf → table = ext ∧ nbuf.blockOp ≠ [] ∧
        BlocksWellFormed nbuf.blockOp ∧ blockSize nbuf.blockOp = extSize ext ∧
        nbuf.bytes = extBytes ext ∧ nbuf.totalSize = u32 (extSize ext) := by
  unfold netbufFromExt
  rw [if_neg hne]
  dsimp only
  split
  · -- no memory for the first block
    rename_i hnone
    refine ⟨none, ext, rfl, fun hs => ?_, by simp⟩
    obtain ⟨hblo, -, -⟩ := hs
    grind
  · rename_i content hcon
    obtain ⟨copy, hrun, hcopy, hrest⟩ :=
      aggregateHeader_spec hext content hroom (consolidated_lt hlen)
    simp only [hrun, bind, Except.bind, pure, Except.pure]
    by_cases hstr : allocation.struct
    · refine ⟨_, ext, by rw [if_neg (by simpa using hstr)], fun _ => rfl, ?_⟩
      intro nbuf hnbuf
      obtain rfl := Option.some.inj hnbuf
      exact ⟨rfl, extBuffer_spec hne hroom hspa hcopy hrest⟩
    · refine ⟨none, _, by rw [if_pos (by simpa using hstr)], fun hs => ?_, by simp⟩
      exact absurd hs.2.1 hstr

/-- `NetbufFromExt` returns the concatenation of the fragments and leaves the table as it was. -/
def FromExtSound (ext : List NetFragment) (headSpace headLen : ℕ) : Prop :=
  ∀ allocation, ∃ result table,
    netbufFromExt allocation ext headSpace headLen = .ok (result, table) ∧
      (allocation.Succeeds → result.isSome) ∧
      ∀ nbuf, result = some nbuf → nbuf.WellFormed ∧ nbuf.bytes = extBytes ext ∧ table = ext

/-- The data and the first block can be measured in 32 bits. -/
def ExtFits (ext : List NetFragment) (headSpace headLen : ℕ) : Prop :=
  extSize ext < 2 ^ 32 ∧
    (consolidated ext headLen = 0 ∨ consolidated ext headLen + headSpace < 2 ^ 32)

lemma aggregateHeader_fault {ext : List NetFragment} {head : ℕ} (hne : ext ≠ [])
    (hhead : head < 2 ^ 32) (hspa : headSpace < 2 ^ 32) (h : 2 ^ 32 ≤ head + headSpace)
    (content : ℕ → UInt8) : aggregateHeader ext headSpace head content = .error .fault := by
  have hsum : u32 (head + headSpace) = head + headSpace - 2 ^ 32 := u32_of_ge h (by omega)
  have hcopy : ∀ data, copyMem (pool (u32 (head + headSpace)) content) headSpace data =
      .error .fault := by
    intro data
    unfold copyMem
    rw [if_neg]
    simp only [pool, List.length_map, List.length_range, hsum]
    omega
  unfold aggregateHeader
  rw [if_pos (by omega)]
  cases ext with
  | nil => exact absurd rfl hne
  | cons fragment ext =>
    simp only [copyHeader, Nat.add_zero, hcopy]
    split_ifs <;> rfl

lemma extFits_of_wellFormed {ext table : List NetFragment} (hext : ExtWellFormed ext)
    (hspa : headSpace < 2 ^ 32) (hlen : headLen < 2 ^ 32)
    (hrun : netbufFromExt allocation ext headSpace headLen = .ok (some nbuf, table))
    (hwf : nbuf.WellFormed) : ExtFits ext headSpace headLen := by
  have hne : ext ≠ [] := by
    intro hnil
    simp [netbufFromExt, hnil] at hrun
  have hroom : consolidated ext headLen = 0 ∨ consolidated ext headLen + headSpace < 2 ^ 32 := by
    by_contra hwrap
    rw [not_or, Nat.not_lt] at hwrap
    unfold netbufFromExt at hrun
    rw [if_neg hne] at hrun
    dsimp only at hrun
    split at hrun
    · simp at hrun
    · rw [aggregateHeader_fault hne (consolidated_lt hlen) hspa hwrap.2] at hrun
      exact nomatch hrun
  refine ⟨?_, hroom⟩
  obtain ⟨result, table', hrun', -, hspec⟩ := netbufFromExt_run hne hext hroom hspa hlen allocation
  rw [hrun] at hrun'
  obtain ⟨rfl, -⟩ := Prod.mk.inj (Except.ok.inj hrun')
  obtain ⟨-, -, -, hsize, -⟩ := hspec nbuf rfl
  rw [← hsize, hwf.total]
  exact hwf.lt

lemma fromExtSound_iff {ext : List NetFragment} (hne : ext ≠ []) (hext : ExtWellFormed ext)
    (hspa : headSpace < 2 ^ 32) (hlen : headLen < 2 ^ 32) :
    FromExtSound ext headSpace headLen ↔ ExtFits ext headSpace headLen := by
  constructor
  · intro hsou
    let memory : Allocation := ⟨some fun _ => 0, true, true⟩
    obtain ⟨result, table, hrun, hsome, hspec⟩ := hsou memory
    obtain ⟨nbuf, rfl⟩ := Option.isSome_iff_exists.mp (hsome ⟨rfl, rfl, rfl⟩)
    grind [extFits_of_wellFormed]
  · rintro ⟨hsize, hroom⟩ allocation
    obtain ⟨result, table, hrun, hsome, hspec⟩ :=
      netbufFromExt_run hne hext hroom hspa hlen allocation
    refine ⟨result, table, hrun, hsome, fun nbuf hnbuf => ?_⟩
    obtain ⟨htab, hblo, hwf, hsum, hbyt, htot⟩ := hspec nbuf hnbuf
    rw [u32_of_lt hsize] at htot
    exact ⟨⟨hblo, hwf, hsum.trans htot.symm, by rw [htot]; exact hsize⟩, hbyt, htab⟩

/-- The bytes of a list of buffers. -/
def bufListBytes (bufList : List NetBuf) : List UInt8 := bufList.flatMap NetBuf.bytes

def BufListWellFormed (bufList : List NetBuf) : Prop := ∀ nbuf ∈ bufList, nbuf.WellFormed

lemma blockFragments_spec {ops : List NetBlockOp} (hops : BlocksWellFormed ops) :
    let ext := (ops.filter fun op => op.size ≠ 0).map
      fun op => (⟨op.size, op.memory.drop op.head⟩ : NetFragment)
    ExtWellFormed ext ∧ extBytes ext = blockBytes ops := by
  induction ops with
  | nil => simp [ExtWellFormed, extBytes]
  | cons op ops ih =>
    rw [blocksWellFormed_cons] at hops
    obtain ⟨hop, hops⟩ := hops
    obtain ⟨hwf, hbyt⟩ := ih hops
    by_cases hzero : op.size = 0
    · grind [Bool.false_eq_true, blockBytes_cons, NetBlockOp.bytes_of_size_eq_zero]
    · simp only [List.filter_cons, ne_eq, hzero, not_false_eq_true, decide_true, if_true,
        List.map_cons, extWellFormed_cons, extBytes_cons, blockBytes_cons, List.length_drop]
      refine ⟨⟨?_, hwf⟩, ?_⟩
      · have := hop.head_le
        have := hop.tail_le
        have := hop.inside
        have := hop.size_eq
        omega
      · rw [hbyt]
        rfl

lemma blocksWellFormed_bufList {bufList : List NetBuf} (h : BufListWellFormed bufList) :
    BlocksWellFormed (bufList.flatMap fun nbuf => nbuf.blockOp) := by
  intro op hop
  obtain ⟨nbuf, hnbuf, hop⟩ := List.mem_flatMap.mp hop
  exact (h nbuf hnbuf).blocks op hop

lemma blockBytes_bufList (bufList : List NetBuf) :
    blockBytes (bufList.flatMap fun nbuf => nbuf.blockOp) = bufListBytes bufList := by
  induction bufList with
  | nil => rfl
  | cons nbuf bufList ih =>
    rw [List.flatMap_cons, blockBytes_append, ih]
    rfl

/-- `NetbufFromBufList` returns the concatenation of the buffers. -/
def FromBufListSound (bufList : List NetBuf) (headSpace headerLen : ℕ) : Prop :=
  ∀ allocation, ∃ result, netbufFromBufList allocation bufList headSpace headerLen = .ok result ∧
    (allocation.Succeeds → result.isSome) ∧
    ∀ nbuf, result = some nbuf → nbuf.WellFormed ∧ nbuf.bytes = bufListBytes bufList

lemma length_extBytes {ext : List NetFragment} (h : ExtWellFormed ext) :
    (extBytes ext).length = extSize ext := by
  induction ext with
  | nil => rfl
  | cons fragment ext ih =>
    grind [extWellFormed_cons, extBytes_cons, List.length_append, extSize_cons, List.length_take]

lemma bufListFragments_spec {bufList : List NetBuf} (h : BufListWellFormed bufList) :
    ExtWellFormed (bufListFragments bufList) ∧
      extBytes (bufListFragments bufList) = bufListBytes bufList := by
  rw [← blockBytes_bufList]
  exact blockFragments_spec (blocksWellFormed_bufList h)

lemma fromBufListSound_iff {bufList : List NetBuf} (h : BufListWellFormed bufList)
    (hspa : headSpace < 2 ^ 32) (hlen : headLen < 2 ^ 32) :
    FromBufListSound bufList headSpace headLen ↔
      bufListBytes bufList ≠ [] ∧ ExtFits (bufListFragments bufList) headSpace headLen := by
  obtain ⟨hext, hbyt⟩ := bufListFragments_spec h
  have hemp : bufListFragments bufList = [] ↔ bufListBytes bufList = [] := by
    constructor
    · intro hnil
      rw [← hbyt]
      exact congrArg extBytes hnil
    · intro hnil
      apply List.eq_nil_iff_forall_not_mem.mpr
      intro fragment hfra
      have hsum : extSize (bufListFragments bufList) = 0 := by
        rw [← length_extBytes hext, hbyt, hnil, List.length_nil]
      have hzero : fragment.len = 0 :=
        List.sum_eq_zero_iff_forall_eq_nat.mp hsum _ (List.mem_map_of_mem hfra)
      obtain ⟨op, hop, rfl⟩ := List.mem_map.mp hfra
      grind
  constructor
  · intro hsou
    let memory : Allocation := ⟨some fun _ => 0, true, true⟩
    obtain ⟨result, hrun, hsome, hspec⟩ := hsou memory
    obtain ⟨nbuf, rfl⟩ := Option.isSome_iff_exists.mp (hsome ⟨rfl, rfl, rfl⟩)
    have hwf := (hspec nbuf rfl).1
    cases hfrom : netbufFromExt memory (bufListFragments bufList) headSpace headLen with
    | error halt => simp [netbufFromBufList, memory, hfrom, Except.map] at hrun
    | ok answer =>
      obtain ⟨built, table⟩ := answer
      have hbui : built = some nbuf := by
        simpa [netbufFromBufList, memory, hfrom, Except.map] using hrun
      subst hbui
      refine ⟨fun hnil => ?_, extFits_of_wellFormed hext hspa hlen hfrom hwf⟩
      simp [netbufFromExt, hemp.mpr hnil] at hfrom
  · rintro ⟨hne, hfits⟩ allocation
    obtain ⟨result, table, hrun, hsome, hspec⟩ :=
      (fromExtSound_iff (fun h => hne (hemp.mp h)) hext hspa hlen).mpr hfits allocation
    by_cases htab : allocation.table
    · grind [netbufFromBufList, Except.map]
    · refine ⟨none, by simp [netbufFromBufList, htab], fun hs => absurd hs.2.2 htab, by simp⟩

lemma fromBufListSound_of_lt {bufList : List NetBuf} (h : BufListWellFormed bufList)
    (hne : bufListBytes bufList ≠ []) (hlt : (bufListBytes bufList).length < 2 ^ 32) :
    FromBufListSound bufList 0 0 := by
  obtain ⟨hext, hbyt⟩ := bufListFragments_spec h
  rw [fromBufListSound_iff h (by decide) (by decide)]
  refine ⟨hne, ?_, .inl ?_⟩
  · rw [← length_extBytes hext, hbyt]
    exact hlt
  · unfold consolidated
    split
    · rfl
    · rw [if_pos (.inl (Nat.zero_le _))]

end Edk2.Net
