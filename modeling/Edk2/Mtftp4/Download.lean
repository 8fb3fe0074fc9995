import Edk2.Mtftp4.Model
import Edk2.Lib.Window
import Mathlib.Tactic.Ring

/-!
# A download as a whole

The server sends the blocks of a file; their numbers are counted modulo `2 ^ 16`. An active client
waits for one block at a time, so that its list of holes is always one range: it starts with the
block that is expected and counts the rounds. The download is right unless the buffer is too small
and the last block has the number zero.
-/

namespace Edk2.Mtftp4

open Net Window

/-- A file that is sent in blocks. -/
structure File where
  data : List UInt8
  blkSize : ℕ
  /-- The smallest block size that the options allow. -/
  blkSize_ge : 8 ≤ blkSize
  length_lt : data.length < 2 ^ 64

namespace File

variable (file : File) {n : ℕ}

/-- The number of blocks; the last one is shorter than the others and can be empty. -/
def num : ℕ := file.data.length / file.blkSize + 1

/-- The place of a block in the file. -/
def offset (n : ℕ) : ℕ := (n - 1) * file.blkSize

/-- The packet with the block number `n`, counted from one. -/
def packet (n : ℕ) : DataPacket := ⟨n % 2 ^ 16, window file.data (file.offset n) file.blkSize⟩

lemma blkSize_pos : 0 < file.blkSize := by
  have := file.blkSize_ge
  omega

lemma num_lt : file.num < 2 ^ 64 := by
  have hdiv : file.data.length / file.blkSize ≤ file.data.length / 8 :=
    Nat.div_le_div_left file.blkSize_ge (by decide)
  have hlt := file.length_lt
  have heig : file.data.length / 8 < 2 ^ 61 := by omega
  exact Nat.lt_of_le_of_lt (Nat.add_le_add_right hdiv 1) (by omega)

lemma offset_le (h : n ≤ file.num) : file.offset n ≤ file.data.length := by
  have hdiv := Nat.div_mul_le_self file.data.length file.blkSize
  have hle : (n - 1) * file.blkSize ≤ file.data.length / file.blkSize * file.blkSize :=
    Nat.mul_le_mul_right _ (Nat.sub_le_of_le_add h)
  exact le_trans hle hdiv

lemma offset_succ (h : 1 ≤ n) : file.offset (n + 1) = file.offset n + file.blkSize := by
  unfold offset
  obtain ⟨m, rfl⟩ := Nat.exists_eq_add_of_le h
  rw [show 1 + m + 1 - 1 = m + 1 by omega, show 1 + m - 1 = m by omega]
  ring

lemma length_full (hpos : 1 ≤ n) (h : n < file.num) :
    (file.packet n).data.length = file.blkSize := by
  have hle := file.offset_le (n := n + 1) h
  rw [file.offset_succ hpos] at hle
  exact length_window_of_le hle

lemma length_last : (file.packet file.num).data.length = file.data.length - file.offset file.num ∧
    (file.packet file.num).data.length < file.blkSize := by
  have hmod := Nat.mod_lt file.data.length file.blkSize_pos
  have hdiv := Nat.div_add_mod file.data.length file.blkSize
  have hoff : file.offset file.num = file.blkSize * (file.data.length / file.blkSize) := by
    unfold offset num
    rw [Nat.add_sub_cancel, Nat.mul_comm]
  have hlen : (file.packet file.num).data.length =
      min file.blkSize (file.data.length - file.offset file.num) := length_window
  omega

end File

/-- The holes when the block `e` is the next one. -/
def expectedRange (e : ℕ) : BlockRange := ⟨(e % 2 ^ 16 : ℕ), 65535, (e / 2 ^ 16 : ℕ), 65535⟩

lemma advance_expectedRange (e : ℕ) : advance (expectedRange e) = expectedRange (e + 1) := by
  unfold advance expectedRange
  dsimp only
  split_ifs with hrou
  · grind
  · grind

lemma blockCounter_expectedRange {e : ℕ} (h : e < 2 ^ 64) :
    blockCounter (expectedRange e) (e % 2 ^ 16) = e := by
  unfold blockCounter expectedRange
  dsimp only
  split_ifs with hrou
  · grind [u64_of_lt]
  · omega

lemma removeBlockNum_expected (answers : Answers) {e : ℕ} (h : e < 2 ^ 64) :
    mtftp4RemoveBlockNum answers (e % 2 ^ 16) false [expectedRange e] =
      (.success, e, [expectedRange (e + 1)]) := by
  have hstop : ¬ (expectedRange e).stop < (e % 2 ^ 16 : ℕ) := by
    unfold expectedRange
    dsimp only
    omega
  have hsta : (expectedRange e).start = (e % 2 ^ 16 : ℕ) := rfl
  have hnext : ¬ (expectedRange (e + 1)).stop < (expectedRange (e + 1)).start := by
    unfold expectedRange
    dsimp only
    omega
  simp only [mtftp4RemoveBlockNum, hstop, if_false, hsta, Int.lt_irrefl, if_true,
    blockCounter_expectedRange h, advance_expectedRange, hnext, Bool.false_eq_true, or_self]

/-- The holes when the block `e` is the last one. -/
def lastRange (e : ℕ) : BlockRange :=
  ⟨(e % 2 ^ 16 : ℕ), (e % 2 ^ 16 : ℕ), (e / 2 ^ 16 : ℕ), 65535⟩

lemma setLastBlockNum_expected (e : ℕ) :
    mtftp4SetLastBlockNum [expectedRange e] (e % 2 ^ 16 : ℕ) = [lastRange e] := by
  have hsta : (expectedRange e).start = (e % 2 ^ 16 : ℕ) := rfl
  simp only [mtftp4SetLastBlockNum, List.reverse_singleton, setLastLoop, hsta, Int.lt_irrefl,
    if_false]
  split_ifs with hstop
  · rfl
  · grind [expectedRange, lastRange]

lemma removeBlockNum_last (answers : Answers) {e : ℕ} (h : e < 2 ^ 64) :
    mtftp4RemoveBlockNum answers (e % 2 ^ 16) true [lastRange e] = (.success, e, []) := by
  have hcou : blockCounter (lastRange e) (e % 2 ^ 16) = e := blockCounter_expectedRange h
  have hsta : (lastRange e).start = (e % 2 ^ 16 : ℕ) := rfl
  have hstop : (lastRange e).stop = (e % 2 ^ 16 : ℕ) := rfl
  simp only [mtftp4RemoveBlockNum, hsta, hstop, Int.lt_irrefl, if_false, if_true, hcou, or_true]

/-! ### One packet -/

section Packet

variable {file : File} {size e n : ℕ} {self : Mtftp4Protocol} {answers : Answers}

/-- The session waits for the block `e` with a buffer of the given size. If that is enough for the
file, the blocks before are in the buffer. -/
structure Waiting (file : File) (size e : ℕ) (session : Mtftp4Protocol) : Prop where
  blkSize_eq : session.blkSize = file.blkSize
  lastBlock_eq : session.lastBlock = 0
  master : session.master = true
  blocks_eq : session.blocks = [expectedRange e]
  bufferSize_eq : session.bufferSize = size
  buffer : ∃ buffer, session.buffer = some buffer ∧ size ≤ buffer.length ∧
    (file.data.length ≤ size → buffer.take (file.offset e) = file.data.take (file.offset e))

lemma copyMem_block (buffer : List UInt8) (start : ℕ) (data : List UInt8)
    (hfits : start + data.length ≤ buffer.length) :
    ∃ buffer', copyMem buffer start data = .ok buffer' ∧ buffer'.length = buffer.length ∧
      buffer'.take (start + data.length) = buffer.take start ++ data := by
  refine ⟨_, if_pos hfits, ?_, ?_⟩
  · simp only [List.length_append, List.length_take, List.length_drop]
    omega
  · grind

lemma block_place (hpos : 1 ≤ e) (hle : e ≤ file.num) :
    u64 (u64 (e + (2 ^ 64 - 1)) * file.blkSize) = file.offset e ∧
      u64 (file.offset e + (file.packet e).data.length) =
        file.offset e + (file.packet e).data.length ∧
      file.offset e + (file.packet e).data.length ≤ file.data.length := by
  have hoff := file.offset_le hle
  have hlt := file.length_lt
  have hnum := file.num_lt
  have hlen : (file.packet e).data.length =
      min file.blkSize (file.data.length - file.offset e) := length_window
  have hpred : u64 (e + (2 ^ 64 - 1)) = e - 1 := by
    unfold u64
    omega
  refine ⟨?_, ?_, by omega⟩
  · rw [hpred]
    exact u64_of_lt (by unfold File.offset at hoff; omega)
  · exact u64_of_lt (by omega)

lemma take_block : file.data.take (file.offset e) ++ (file.packet e).data =
    file.data.take (file.offset e + (file.packet e).data.length) := by
  have hlen : (file.packet e).data.length =
      min file.blkSize (file.data.length - file.offset e) := length_window
  have hdata : (file.packet e).data = window file.data (file.offset e) file.blkSize := rfl
  rw [List.take_add, hlen, hdata, ← window_min]
  rfl

lemma saveData_block (h : Waiting file size e self) (hpos : 1 ≤ e) (hlt : e < file.num) :
    ∃ self', saveData { self with blocks := [expectedRange (e + 1)] } (file.packet e) false e =
      .ok (.success, self') ∧ Waiting file size (e + 1) self' := by
  obtain ⟨buffer, hbuf, hroom, hsav⟩ := h.buffer
  obtain ⟨hsta, hstop, hins⟩ := block_place hpos (Nat.le_of_lt hlt)
  have hlen := file.length_full hpos hlt
  have hnext := file.offset_succ hpos
  rw [hlen] at hstop hins
  unfold saveData
  simp only [hbuf, h.blkSize_eq, hsta, hlen, hstop, h.bufferSize_eq, h.lastBlock_eq]
  by_cases hfits : file.offset e + file.blkSize ≤ size
  · rw [if_pos hfits]
    obtain ⟨buffer', hcopy, hsame, htake⟩ := copyMem_block buffer (file.offset e)
      (file.packet e).data (by omega)
    simp only [hcopy, bind, Except.bind, Bool.false_eq_true, and_false, if_false, pure, Except.pure]
    refine ⟨_, rfl, rfl, rfl, h.master, rfl, rfl, buffer', rfl, by omega, ?_⟩
    intro heno
    rw [hnext, ← hlen, htake, hsav heno]
    exact take_block
  · rw [if_neg hfits]
    refine ⟨_, rfl, rfl, rfl, h.master, rfl, rfl, buffer, rfl, hroom, ?_⟩
    intro heno
    omega

/-- The buffer holds the file. -/
def Complete (file : File) (self : Mtftp4Protocol) : Prop :=
  self.bufferSize = file.data.length ∧
    ∃ buffer, self.buffer = some buffer ∧ buffer.take file.data.length = file.data

lemma saveData_last (h : Waiting file size file.num self) :
    ∃ status self', saveData { self with lastBlock := file.num % 2 ^ 16, blocks := [] }
        (file.packet file.num) true file.num = .ok (status, self') ∧ self'.blocks = [] ∧
      (file.data.length ≤ size → status = .success ∧ Complete file self') ∧
      (size < file.data.length → file.num % 2 ^ 16 ≠ 0 →
        status = .bufferTooSmall ∧ self'.bufferSize = file.data.length) ∧
      (size < file.data.length → file.num % 2 ^ 16 = 0 →
        status = .success ∧ self'.bufferSize = size) := by
  obtain ⟨buffer, hbuf, hroom, hsav⟩ := h.buffer
  have hone : 1 ≤ file.num := Nat.le_add_left 1 _
  obtain ⟨hsta, -, -⟩ := block_place hone (le_refl _)
  have hlen := file.length_last.1
  have hle := file.offset_le (le_refl file.num)
  have hwho : file.offset file.num + (file.packet file.num).data.length = file.data.length := by
    omega
  have hu64 : u64 file.data.length = file.data.length := u64_of_lt file.length_lt
  unfold saveData
  simp only [hbuf, h.blkSize_eq, hsta, hwho, hu64, h.bufferSize_eq]
  by_cases hfits : file.data.length ≤ size
  · rw [if_pos hfits]
    obtain ⟨buffer', hcopy, -, htake⟩ := copyMem_block buffer (file.offset file.num)
      (file.packet file.num).data (by omega)
    have hblo : file.num % 2 ^ 16 = (file.packet file.num).block := rfl
    simp only [hcopy, bind, Except.bind, hblo, and_self, if_true, pure, Except.pure]
    refine ⟨.success, _, rfl, rfl, fun _ => ⟨rfl, rfl, buffer', rfl, ?_⟩, by omega, by omega⟩
    rw [← hwho, htake, hsav hfits, take_block, hwho, List.take_length]
  · rw [if_neg hfits]
    by_cases hzero : file.num % 2 ^ 16 = 0
    · rw [if_neg (by simpa using hzero)]
      exact ⟨.success, _, rfl, rfl, by omega, by omega, fun _ _ => ⟨rfl, rfl⟩⟩
    · rw [if_pos hzero]
      exact ⟨.bufferTooSmall, _, rfl, rfl, by omega, fun _ _ => ⟨rfl, rfl⟩, by omega⟩

/-- The user does not abort and the ACK can be sent. -/
structure Answers.Willing (answers : Answers) : Prop where
  check : ∀ status, answers.checkPacket = some status → status.isError = false
  send : answers.sendAck.isError = false

lemma sendAck_spec (h : Waiting file size e self) (answers : Answers) (blkNo : ℕ) :
    ∃ status self', mtftp4RrqSendAck answers self blkNo = (status, self') ∧
      Waiting file size e self' ∧ (answers.Willing → status = .success) := by
  unfold mtftp4RrqSendAck
  split_ifs with herr
  · refine ⟨_, _, rfl, h, ?_⟩
    intro hwil
    rw [hwil.send] at herr
    cases herr
  · exact ⟨_, _, rfl, { h with }, fun _ => rfl⟩

lemma Waiting.next (h : Waiting file size e self) :
    mtftp4GetNextBlockNum self.blocks = (e % 2 ^ 16 : ℕ) := by
  rw [h.blocks_eq]
  rfl

lemma input_other (h : Waiting file size e self) (answers : Answers)
    (hne : n % 2 ^ 16 ≠ e % 2 ^ 16) :
    ∃ status self', mtftp4RrqInput answers self (file.packet n) = .ok (status, false, self') ∧
      Waiting file size e self' ∧ (answers.Willing → status = .success) := by
  have hlen : (file.packet n).data.length ≤ file.blkSize := by
    have : (file.packet n).data.length = min file.blkSize _ := length_window
    omega
  have hblo : ((e % 2 ^ 16 : ℕ) : ℤ) ≠ (file.packet n).block := by
    have : (file.packet n).block = n % 2 ^ 16 := rfl
    omega
  obtain ⟨status, self', hack, hwai, hsuc⟩ :=
    sendAck_spec h answers (ackNumber (e % 2 ^ 16 : ℕ))
  refine ⟨status, self', ?_, hwai, hsuc⟩
  unfold mtftp4RrqInput mtftp4RrqHandleData
  rw [if_neg (by rw [h.blkSize_eq]; omega), h.next]
  dsimp only
  rw [if_neg (by omega), if_pos ⟨h.master, hblo⟩, hack]

lemma input_expected (h : Waiting file size e self) (answers : Answers) :
    mtftp4RrqInput answers self (file.packet e) = (do
      let (status, self) ← mtftp4RrqSaveBlock answers self (file.packet e)
      if status.isError then return (status, false, self)
      else return acknowledge answers { self with totalBlock := u64 (self.totalBlock + 1) }) := by
  have hlen : (file.packet e).data.length ≤ file.blkSize := by
    have : (file.packet e).data.length = min file.blkSize _ := length_window
    omega
  have hblo : ((e % 2 ^ 16 : ℕ) : ℤ) = (file.packet e).block := rfl
  unfold mtftp4RrqInput mtftp4RrqHandleData
  rw [if_neg (by rw [h.blkSize_eq]; omega), h.next]
  dsimp only
  rw [if_neg (by omega), if_neg fun hoth => hoth.2 hblo]

lemma saveBlock_check (answers : Answers) {packet : DataPacket} {counter : ℕ}
    {blocks : List BlockRange}
    (hrem : mtftp4RemoveBlockNum answers packet.block (packet.data.length < self.blkSize)
      (noteLastBlock self packet).blocks = (.success, counter, blocks)) :
    (∃ self', mtftp4RrqSaveBlock answers self packet = .ok (.aborted, self') ∧
      ¬ answers.Willing) ∨
    mtftp4RrqSaveBlock answers self packet =
      saveData { noteLastBlock self packet with blocks := blocks } packet
        (packet.data.length < self.blkSize) counter := by
  unfold mtftp4RrqSaveBlock
  simp only [hrem, reduceCtorEq, if_false, EfiStatus.isError, bne_self_eq_false, Bool.false_eq_true]
  cases hche : answers.checkPacket with
  | none => exact .inr rfl
  | some status =>
    by_cases herr : (status != .success) = true
    · refine .inl ⟨_, if_pos herr, ?_⟩
      intro hwil
      have hok := hwil.check status hche
      rw [EfiStatus.isError, herr] at hok
      cases hok
    · exact .inr (if_neg herr)

lemma input_next (h : Waiting file size e self) (hpos : 1 ≤ e) (hlt : e < file.num)
    (answers : Answers) :
    ∃ status self', mtftp4RrqInput answers self (file.packet e) = .ok (status, false, self') ∧
      (status = .success → Waiting file size (e + 1) self') ∧
      (answers.Willing → status = .success) := by
  have hlen := file.length_full hpos hlt
  have hnum := file.num_lt
  have hfull : ¬ (file.packet e).data.length < self.blkSize := by
    rw [h.blkSize_eq]
    omega
  have hnote : noteLastBlock self (file.packet e) = self := if_neg hfull
  have hrem : mtftp4RemoveBlockNum answers (file.packet e).block
      ((file.packet e).data.length < self.blkSize) (noteLastBlock self (file.packet e)).blocks =
      (.success, e, [expectedRange (e + 1)]) := by
    rw [hnote, h.blocks_eq, decide_eq_false hfull]
    exact removeBlockNum_expected answers (by omega)
  rw [input_expected h]
  rcases saveBlock_check answers hrem with ⟨self', habo, hunw⟩ | hsave
  · rw [habo]
    refine ⟨.aborted, self', rfl, by simp, ?_⟩
    intro hwil
    exact absurd hwil hunw
  · rw [hnote, decide_eq_false hfull] at hsave
    obtain ⟨saved, hrun, hwai⟩ := saveData_block h hpos hlt
    rw [hsave, hrun]
    have hcou : Waiting file size (e + 1)
        { saved with totalBlock := u64 (saved.totalBlock + 1) } := { hwai with }
    simp only [bind, Except.bind, EfiStatus.isError, bne_self_eq_false, Bool.false_eq_true, if_false,
      pure, Except.pure]
    unfold acknowledge
    rw [hcou.next]
    dsimp only
    have hnon : ¬ (((e + 1) % 2 ^ 16 : ℕ) : ℤ) < 0 := by omega
    rw [if_pos (.inl hwai.master), if_neg hnon, decide_eq_false hnon]
    split_ifs
    · obtain ⟨status, self', hack, hnew, hsuc⟩ :=
        sendAck_spec hcou answers (ackNumber ((e + 1) % 2 ^ 16 : ℕ))
      rw [hack]
      exact ⟨status, self', rfl, fun _ => hnew, hsuc⟩
    · exact ⟨.success, _, rfl, fun _ => hcou, fun _ => rfl⟩

/-- The end of a download with the last block. -/
structure Ended (file : File) (size : ℕ) (willing : Prop) (status : EfiStatus) (completed : Bool)
    (session : Mtftp4Protocol) : Prop where
  ends : status.isError ∨ completed
  enough : file.data.length ≤ size →
    (status = .success → Complete file session) ∧
      (willing → status = .success ∧ completed = true)
  tooSmall : size < file.data.length → file.num % 2 ^ 16 ≠ 0 →
    status ≠ .success ∧ (willing → status = .bufferTooSmall ∧ completed = false ∧
      session.bufferSize = file.data.length)
  unnoticed : size < file.data.length → file.num % 2 ^ 16 = 0 →
    willing → status = .success ∧ completed = true ∧ session.bufferSize = size

lemma Complete.sent {session session' : Mtftp4Protocol} (h : Complete file session)
    (hsize : session'.bufferSize = session.bufferSize) (hbuf : session'.buffer = session.buffer) :
    Complete file session' := by
  unfold Complete
  rw [hsize, hbuf]
  exact h

lemma acknowledge_last (hblo : self.blocks = []) (answers : Answers) :
    ∃ status self', acknowledge answers self = (status, true, self') ∧
      self'.bufferSize = self.bufferSize ∧ self'.buffer = self.buffer ∧
      (answers.Willing → status = .success) := by
  unfold acknowledge mtftp4RrqSendAck
  simp only [hblo, mtftp4GetNextBlockNum, Int.reduceNeg, Int.neg_neg_iff_pos, Int.zero_lt_one,
    or_true, if_true, decide_true]
  split_ifs with herr
  · refine ⟨_, _, rfl, rfl, rfl, ?_⟩
    intro hwil
    rw [hwil.send] at herr
    cases herr
  · exact ⟨_, _, rfl, rfl, rfl, fun _ => rfl⟩

lemma input_last (h : Waiting file size file.num self) (answers : Answers) :
    ∃ status completed self',
      mtftp4RrqInput answers self (file.packet file.num) = .ok (status, completed, self') ∧
      Ended file size answers.Willing status completed self' := by
  have hsho : (file.packet file.num).data.length < self.blkSize := by
    rw [h.blkSize_eq]
    exact file.length_last.2
  have hnote : noteLastBlock self (file.packet file.num) =
      { self with lastBlock := file.num % 2 ^ 16, blocks := [lastRange file.num] } := by
    unfold noteLastBlock
    rw [if_pos hsho, h.blocks_eq]
    exact congrArg (fun blocks =>
      { self with lastBlock := file.num % 2 ^ 16, blocks := blocks }) (setLastBlockNum_expected _)
  have hrem : mtftp4RemoveBlockNum answers (file.packet file.num).block
      ((file.packet file.num).data.length < self.blkSize)
      (noteLastBlock self (file.packet file.num)).blocks = (.success, file.num, []) := by
    rw [hnote, decide_eq_true hsho]
    exact removeBlockNum_last answers file.num_lt
  rw [input_expected h]
  rcases saveBlock_check answers hrem with ⟨self', habo, hunw⟩ | hsave
  · rw [habo]
    refine ⟨.aborted, false, self', rfl, .inl rfl, ?_, ?_, ?_⟩
    · exact fun _ => ⟨by simp, fun hwil => absurd hwil hunw⟩
    · exact fun _ _ => ⟨by simp, fun hwil => absurd hwil hunw⟩
    · exact fun _ _ hwil => absurd hwil hunw
  · rw [hnote, decide_eq_true hsho] at hsave
    obtain ⟨status, saved, hrun, hblo, heno, htoo, hunn⟩ := saveData_last h
    rw [hsave, hrun]
    obtain ⟨ackStatus, self', hack, hsize, hbuf, hsent⟩ := acknowledge_last
      (show { saved with totalBlock := u64 (saved.totalBlock + 1) }.blocks = [] from hblo) answers
    simp only [bind, Except.bind]
    by_cases hfits : file.data.length ≤ size
    · obtain ⟨rfl, hcom⟩ := heno hfits
      simp only [EfiStatus.isError, bne_self_eq_false, Bool.false_eq_true, if_false, hack, pure,
        Except.pure]
      refine ⟨ackStatus, true, self', rfl, .inr rfl, ?_, by omega, by omega⟩
      exact fun _ => ⟨fun _ => hcom.sent hsize hbuf, fun hwil => ⟨hsent hwil, rfl⟩⟩
    · by_cases hzero : file.num % 2 ^ 16 = 0
      · obtain ⟨rfl, hunc⟩ := hunn (by omega) hzero
        simp only [EfiStatus.isError, bne_self_eq_false, Bool.false_eq_true, if_false, hack, pure,
          Except.pure]
        refine ⟨ackStatus, true, self', rfl, .inr rfl, by omega, fun _ hne => absurd hzero hne, ?_⟩
        exact fun _ _ hwil => ⟨hsent hwil, rfl, hsize.trans hunc⟩
      · obtain ⟨rfl, htrue⟩ := htoo (by omega) hzero
        refine ⟨.bufferTooSmall, false, saved, rfl, .inl rfl, by omega, ?_, fun _ hne => ?_⟩
        · exact fun _ _ => ⟨by simp, fun _ => ⟨rfl, rfl, htrue⟩⟩
        · exact absurd hne hzero

end Packet

/-! ### The whole download -/

/-- The blocks that arrive, with the answers for each of them. -/
abbrev Arrivals := List (Answers × ℕ)

/-- The packets that arrive. -/
def Arrivals.packets (file : File) (arrivals : Arrivals) : List (Answers × DataPacket) :=
  arrivals.map fun arrival => (arrival.1, file.packet arrival.2)

/-- The block that is expected after some have arrived. -/
def expectedAfter : ℕ → Arrivals → ℕ
  | e, [] => e
  | e, (_, n) :: arrivals => expectedAfter (if n = e then e + 1 else e) arrivals

/-- Until the last block has arrived, every block that arrives is one of the file and less than a
round away from the one that is expected: this one, a repeat or one ahead. -/
def Nearby (num : ℕ) : ℕ → Arrivals → Prop
  | _, [] => True
  | e, (_, n) :: arrivals => (e ≤ num → 1 ≤ n ∧ n ≤ num ∧ n < e + 2 ^ 16 ∧ e < n + 2 ^ 16) ∧
    Nearby num (if n = e then e + 1 else e) arrivals

def Arrivals.Willing (arrivals : Arrivals) : Prop := ∀ arrival ∈ arrivals, arrival.1.Willing

/-- Completion with success means that the buffer holds the file. If all blocks arrive and nobody
objects, a buffer that is too small is reported with the length of the file, and a large enough one
is filled. -/
structure DownloadCorrect (file : File) (size : ℕ) (arrivals : Arrivals)
    (result : Option (EfiStatus × Bool)) (session : Mtftp4Protocol) : Prop where
  success : result = some (.success, true) → Complete file session
  tooSmall : size < file.data.length → arrivals.Willing → file.num < expectedAfter 1 arrivals →
    result = some (.bufferTooSmall, false) ∧ session.bufferSize = file.data.length
  enough : file.data.length ≤ size → arrivals.Willing → file.num < expectedAfter 1 arrivals →
    result = some (.success, true)

/-- How a download ends from the block `e` on. -/
structure RunEnded (file : File) (size e : ℕ) (arrivals : Arrivals)
    (result : Option (EfiStatus × Bool)) (session : Mtftp4Protocol) : Prop where
  success : result = some (.success, true) → (file.data.length ≤ size → Complete file session) ∧
    (size < file.data.length → file.num % 2 ^ 16 = 0)
  last : arrivals.Willing → file.num < expectedAfter e arrivals →
    (file.data.length ≤ size → result = some (.success, true)) ∧
    (size < file.data.length → file.num % 2 ^ 16 ≠ 0 →
      result = some (.bufferTooSmall, false) ∧ session.bufferSize = file.data.length) ∧
    (size < file.data.length → file.num % 2 ^ 16 = 0 →
      result = some (.success, true) ∧ session.bufferSize = size)

section Run

variable {file : File} {size e n : ℕ} {self : Mtftp4Protocol} {answers : Answers}
  {arrivals : Arrivals}

lemma Arrivals.Willing.tail (h : Arrivals.Willing ((answers, n) :: arrivals)) :
    answers.Willing ∧ arrivals.Willing :=
  ⟨h (answers, n) (by simp), fun arrival ha => h arrival (by simp [ha])⟩

lemma runEnded_error {status : EfiStatus} (herr : status.isError)
    (hwil : answers.Willing → status = .success) :
    RunEnded file size e ((answers, n) :: arrivals) (some (status, false)) self := by
  constructor
  · intro hres
    cases hres
  · intro h _
    rw [hwil h.tail.1] at herr
    cases herr

lemma Ended.runEnded {status : EfiStatus} {completed : Bool}
    (h : Ended file size answers.Willing status completed self) :
    RunEnded file size e ((answers, n) :: arrivals) (some (status, completed)) self := by
  constructor
  · intro hres
    have hst : status = .success := by
      simp only [Option.some.injEq, Prod.mk.injEq] at hres
      exact hres.1
    refine ⟨fun heno => (h.enough heno).1 hst, ?_⟩
    intro htoo
    by_contra hne
    exact (h.tooSmall htoo hne).1 hst
  · intro hwil _
    have hfst := hwil.tail.1
    refine ⟨?_, ?_, ?_⟩
    · intro heno
      obtain ⟨rfl, rfl⟩ := (h.enough heno).2 hfst
      rfl
    · intro htoo hne
      obtain ⟨rfl, rfl, hsize⟩ := (h.tooSmall htoo hne).2 hfst
      exact ⟨rfl, hsize⟩
    · intro htoo hzero
      obtain ⟨rfl, rfl, hsize⟩ := h.unnoticed htoo hzero hfst
      exact ⟨rfl, hsize⟩

lemma RunEnded.cons {result : Option (EfiStatus × Bool)}
    (h : RunEnded file size (if n = e then e + 1 else e) arrivals result self) :
    RunEnded file size e ((answers, n) :: arrivals) result self :=
  ⟨h.success, fun hwil hlast => h.last hwil.tail.2 hlast⟩

lemma download_spec (h : Waiting file size e self) (hpos : 1 ≤ e) (hle : e ≤ file.num)
    (hnea : Nearby file.num e arrivals) :
    ∃ result self', download self (arrivals.packets file) = .ok (result, self') ∧
      RunEnded file size e arrivals result self' := by
  induction arrivals generalizing e self with
  | nil =>
    refine ⟨none, self, rfl, by simp, ?_⟩
    intro _ hlast
    exact absurd hlast (by simp only [expectedAfter]; omega)
  | cons arrival arrivals ih =>
    obtain ⟨answers, n⟩ := arrival
    obtain ⟨hblo, hrest⟩ := hnea
    obtain ⟨-, hn, hahe, hrep⟩ := hblo hle
    have hpac : Arrivals.packets file ((answers, n) :: arrivals) =
        (answers, file.packet n) :: Arrivals.packets file arrivals := rfl
    rw [hpac, download]
    by_cases hexp : n = e
    · subst hexp
      rw [if_pos rfl] at hrest
      by_cases hlast : n = file.num
      · subst hlast
        obtain ⟨status, completed, self', hinp, hend⟩ := input_last h answers
        refine ⟨some (status, completed), self', ?_, hend.runEnded⟩
        simp only [hinp, bind, Except.bind]
        rw [if_pos hend.ends]
        rfl
      · obtain ⟨status, self', hinp, hwai, hwil⟩ :=
          input_next h hpos (by omega) answers
        simp only [hinp, bind, Except.bind, Bool.false_eq_true, or_false]
        by_cases herr : status.isError
        · rw [if_pos herr]
          exact ⟨_, _, rfl, runEnded_error herr hwil⟩
        · have hsuc : status = .success := by simpa [EfiStatus.isError] using herr
          rw [if_neg herr]
          obtain ⟨result, self'', hrun, hend⟩ :=
            ih (hwai hsuc) (by omega) (by omega) hrest
          refine ⟨result, self'', hrun, RunEnded.cons ?_⟩
          rw [if_pos rfl]
          exact hend
    · rw [if_neg hexp] at hrest
      obtain ⟨status, self', hinp, hwai, hwil⟩ :=
        input_other (n := n) h answers (by omega)
      simp only [hinp, bind, Except.bind, Bool.false_eq_true, or_false]
      by_cases herr : status.isError
      · rw [if_pos herr]
        exact ⟨_, _, rfl, runEnded_error herr hwil⟩
      · rw [if_neg herr]
        obtain ⟨result, self'', hrun, hend⟩ := ih hwai hpos hle hrest
        refine ⟨result, self'', hrun, RunEnded.cons ?_⟩
        rw [if_neg hexp]
        exact hend

end Run

/-- The session after `Mtftp4RrqStart`, as the master. -/
def mtftp4RrqStart (file : File) (windowSize size : ℕ) (buffer : List UInt8) : Mtftp4Protocol where
  blkSize := file.blkSize
  lastBlock := 0
  blocks := mtftp4InitBlockRange 1 0xffff
  windowSize := windowSize
  totalBlock := 0
  ackedBlock := 0
  master := true
  buffer := some buffer
  bufferSize := size
  sent := []

lemma waiting_mtftp4RrqStart (file : File) (windowSize : ℕ) {size : ℕ} {buffer : List UInt8}
    (hroom : size ≤ buffer.length) :
    Waiting file size 1 (mtftp4RrqStart file windowSize size buffer) := by
  refine ⟨rfl, rfl, rfl, rfl, rfl, buffer, rfl, hroom, ?_⟩
  intro _
  simp [File.offset]

lemma download_start (file : File) (windowSize : ℕ) {size : ℕ} {buffer : List UInt8}
    (hroom : size ≤ buffer.length) {arrivals : Arrivals} (hnea : Nearby file.num 1 arrivals) :
    ∃ result session,
      download (mtftp4RrqStart file windowSize size buffer) (arrivals.packets file) =
        .ok (result, session) ∧ RunEnded file size 1 arrivals result session :=
  download_spec (waiting_mtftp4RrqStart file windowSize hroom) (le_refl 1)
    (Nat.le_add_left 1 _) hnea

/-- Nobody objects to anything. -/
def willingAnswers : Answers := ⟨true, none, .success, 0⟩

/-- The blocks from `e` on in order. -/
def inOrder (e count : ℕ) : Arrivals := (List.range' e count).map fun n => (willingAnswers, n)

lemma willing_inOrder (e count : ℕ) : (inOrder e count).Willing := by
  intro arrival harr
  obtain ⟨n, -, rfl⟩ := List.mem_map.mp harr
  exact ⟨by simp [willingAnswers], rfl⟩

lemma expectedAfter_inOrder (e count : ℕ) : expectedAfter e (inOrder e count) = e + count := by
  induction count generalizing e with
  | zero => rfl
  | succ count ih =>
    have hcons : inOrder e (count + 1) = (willingAnswers, e) :: inOrder (e + 1) count := by
      simp [inOrder, List.range'_succ]
    rw [hcons, expectedAfter, if_pos rfl, ih]
    omega

lemma nearby_inOrder {num : ℕ} (e count : ℕ) (hpos : 1 ≤ e) : Nearby num e (inOrder e count) := by
  induction count generalizing e with
  | zero => trivial
  | succ count ih =>
    have hcons : inOrder e (count + 1) = (willingAnswers, e) :: inOrder (e + 1) count := by
      simp [inOrder, List.range'_succ]
    rw [hcons, Nearby, if_pos rfl]
    exact ⟨fun hle => ⟨hpos, hle, by omega, by omega⟩, ih (e + 1) (by omega)⟩

lemma nearby_allBlocks (file : File) : Nearby file.num 1 (inOrder 1 file.num) :=
  nearby_inOrder 1 file.num (le_refl 1)

/-- If the buffer is too small and the last block has the number zero, the download completes with
success. -/
lemma download_unnoticed (file : File) (windowSize : ℕ) {size : ℕ} {buffer : List UInt8}
    (hroom : size ≤ buffer.length) (hsma : size < file.data.length)
    (hzero : file.num % 2 ^ 16 = 0) :
    ∃ session, download (mtftp4RrqStart file windowSize size buffer)
        ((inOrder 1 file.num).packets file) = .ok (some (.success, true), session) ∧
      session.bufferSize = size := by
  obtain ⟨result, session, hrun, hend⟩ :=
    download_start file windowSize hroom (nearby_allBlocks file)
  have hlast : file.num < expectedAfter 1 (inOrder 1 file.num) := by
    rw [expectedAfter_inOrder]
    omega
  obtain ⟨rfl, hsize⟩ := (hend.last (willing_inOrder 1 file.num) hlast).2.2 hsma hzero
  exact ⟨session, hrun, hsize⟩

/-- Downloads are right for all orders of arrival exactly if the buffer is large enough or the last
block does not have the number zero. -/
theorem download_correct_iff (file : File) (windowSize size : ℕ) (buffer : List UInt8)
    (hroom : size ≤ buffer.length) :
    (∀ arrivals, Nearby file.num 1 arrivals → ∃ result session,
      download (mtftp4RrqStart file windowSize size buffer) (arrivals.packets file) =
        .ok (result, session) ∧ DownloadCorrect file size arrivals result session) ↔
      file.data.length ≤ size ∨ file.num % 2 ^ 16 ≠ 0 := by
  constructor
  · intro hcorrect
    by_contra hneither
    rw [not_or, not_not] at hneither
    obtain ⟨session, hrun, hsize⟩ :=
      download_unnoticed file windowSize hroom (by omega) hneither.2
    obtain ⟨result, session', hrun', hspec⟩ :=
      hcorrect (inOrder 1 file.num) (nearby_allBlocks file)
    rw [hrun] at hrun'
    obtain ⟨rfl, rfl⟩ := Prod.mk.inj (Except.ok.inj hrun')
    have hcomplete := (hspec.success rfl).1
    omega
  · intro hcondition arrivals hnearby
    obtain ⟨result, session, hrun, hended⟩ := download_start file windowSize hroom hnearby
    refine ⟨result, session, hrun, ?_, ?_, ?_⟩
    · intro hresult
      obtain ⟨hcomplete, hzero⟩ := hended.success hresult
      apply hcomplete
      by_contra hsmall
      have := hzero (by omega)
      omega
    · intro hsmall hwilling hlast
      apply (hended.last hwilling hlast).2.1 hsmall
      omega
    · intro henough hwilling hlast
      exact (hended.last hwilling hlast).1 henough

/-- Twenty bytes in blocks of eight. -/
def twentyBytes : File := ⟨List.replicate 20 7, 8, by decide, by decide⟩

theorem download_correct_twentyBytes :
    8 ≤ (List.replicate 8 (0 : UInt8)).length ∧
    ∀ arrivals, Nearby twentyBytes.num 1 arrivals → ∃ result session,
      download (mtftp4RrqStart twentyBytes 4 8 (List.replicate 8 0)) (arrivals.packets twentyBytes) =
        .ok (result, session) ∧ DownloadCorrect twentyBytes 8 arrivals result session :=
  ⟨by decide, (download_correct_iff twentyBytes 4 8 (List.replicate 8 0) (by decide)).mpr
    (.inr (by decide))⟩

/-- A file of 65535 full blocks and an empty last one. -/
@[irreducible] def wholeRound : File where
  data := List.replicate (65535 * 512) 0
  blkSize := 512
  blkSize_ge := by decide
  length_lt := by
    rw [List.length_replicate]
    decide

-- stated for any such file: the length of a concrete one must not be computed
lemma unnoticed_wholeRound (file : File) (hlen : file.data.length = 33553920)
    (hblk : file.blkSize = 512) :
    Nearby file.num 1 (inOrder 1 file.num) ∧
    ∃ session, download (mtftp4RrqStart file 1 0 []) ((inOrder 1 file.num).packets file) =
        .ok (some (.success, true), session) ∧
      session.bufferSize = 0 ∧ file.data.length = 33553920 := by
  have hzero : file.num % 2 ^ 16 = 0 := by
    unfold File.num
    rw [hlen, hblk]
    omega
  obtain ⟨session, hrun, hsize⟩ := download_unnoticed file 1
    (show 0 ≤ ([] : List UInt8).length from le_refl 0) (by omega) hzero
  exact ⟨nearby_allBlocks file, session, hrun, hsize, hlen⟩

/-- The last block of the file has the number zero: a buffer without any room is not noticed. -/
theorem small_buffer_unnoticed :
    Nearby wholeRound.num 1 (inOrder 1 wholeRound.num) ∧
    ∃ session, download (mtftp4RrqStart wholeRound 1 0 []) ((inOrder 1 wholeRound.num).packets
        wholeRound) = .ok (some (.success, true), session) ∧
      session.bufferSize = 0 ∧ wholeRound.data.length = 33553920 := by
  apply unnoticed_wholeRound
  · unfold wholeRound
    exact List.length_replicate
  · unfold wholeRound
    rfl

end Edk2.Mtftp4
