import Edk2.Lib.Halting
import Edk2.Net.BufferRefine
import Edk2.Tcp.Socket
import Mathlib.Data.List.Chain

/-!
# Urgent bytes that are reported as such

A byte is urgent if it lies within the urgent length of the buffer that it arrived in. Tokens report
the bytes in order and with the right flag as long as no buffer that is urgent throughout is
followed by one that is urgent in part: the length that `SockTcpDataToRcv` takes from the second is
computed from an `UrgLen` that has just been changed.
-/

namespace Edk2.Tcp

open Halting Net

variable {queue run behind rest : List RcvBuf} {buf entry : RcvBuf} {urgent isUrg : Bool}
  {n bufLen dataLen offSet : ℕ} {content : List UInt8}

/-- The bytes of a buffer, each with whether it is urgent. -/
def RcvBuf.marks (buf : RcvBuf) : List (UInt8 × Bool) :=
  (buf.data.take buf.urgLen).map (·, true) ++ (buf.data.drop buf.urgLen).map (·, false)

/-- The bytes of the queue, each with whether it is urgent. -/
def queueMarks (queue : List RcvBuf) : List (UInt8 × Bool) := queue.flatMap RcvBuf.marks

/-- The bytes that a token received. -/
def ReceiveData.bytes (rxData : ReceiveData) : List UInt8 :=
  (rxData.fragmentTable.flatMap fun fragment =>
    fragment.fragmentBuffer.take fragment.fragmentLength).take rxData.dataLength

/-- The bytes that a token received, each with `UrgentFlag`. -/
def ReceiveData.marks (rxData : ReceiveData) : List (UInt8 × Bool) :=
  rxData.bytes.map (·, rxData.urgentFlag)

/-- The tokens report the bytes of the queue in order, each as what it is. -/
def ReportsArrived (queue : DataQueue) (rcvTokenList : List RcvToken) : Prop :=
  ∃ received queue' waiting, sockWakeRcvToken queue rcvTokenList = .ok (received, queue', waiting) ∧
    received.flatMap ReceiveData.marks <+: queueMarks queue.bufList

/-- All bytes of the buffer are urgent, or none. -/
def RcvBuf.Only (buf : RcvBuf) (urgent : Bool) : Prop :=
  if urgent then buf.totalSize ≤ buf.urgLen else buf.urgLen = 0

/-- Some bytes are urgent and some are not. -/
def RcvBuf.Mixed (buf : RcvBuf) : Prop := 0 < buf.urgLen ∧ buf.urgLen < buf.totalSize

/-- A buffer with urgent bytes only is not followed by a mixed one. -/
def Follows (buf next : RcvBuf) : Prop := ¬ (buf.totalSize ≤ buf.urgLen ∧ next.Mixed)

/-- Buffers with data that follow each other well. -/
structure Orderly (queue : List RcvBuf) : Prop where
  data_ne : ∀ buf ∈ queue, buf.data ≠ []
  chain : queue.IsChain Follows

lemma RcvBuf.mixed_or_only (buf : RcvBuf) : buf.Mixed ∨ buf.Only (decide (0 < buf.urgLen)) := by
  by_cases hmix : buf.Mixed
  · exact .inl hmix
  · refine .inr ?_
    unfold RcvBuf.Only
    split_ifs with hurg
    · exact Nat.le_of_not_lt fun hpart => hmix ⟨of_decide_eq_true hurg, hpart⟩
    · exact Nat.eq_zero_of_not_pos fun hpos => hurg (decide_eq_true hpos)

lemma RcvBuf.marks_of_only (h : buf.Only urgent) : buf.marks = buf.data.map (·, urgent) := by
  unfold RcvBuf.Only at h
  unfold RcvBuf.marks
  cases urgent with
  | true =>
    grind [List.take_of_length_le, List.drop_of_length_le]
  | false =>
    grind

lemma RcvBuf.map_fst_marks (buf : RcvBuf) : buf.marks.map Prod.fst = buf.data := by
  simp [RcvBuf.marks, Function.comp_def]

lemma queueMarks_cons : queueMarks (buf :: queue) = buf.marks ++ queueMarks queue := rfl

lemma queueBytes_cons : queueBytes (buf :: queue) = buf.data ++ queueBytes queue := rfl

lemma length_queueBytes_cons :
    (queueBytes (buf :: queue)).length = buf.totalSize + (queueBytes queue).length := by
  rw [queueBytes_cons, List.length_append]

lemma queueBytes_append : queueBytes (run ++ behind) = queueBytes run ++ queueBytes behind :=
  List.flatMap_append

lemma map_fst_queueMarks (queue : List RcvBuf) :
    (queueMarks queue).map Prod.fst = queueBytes queue := by
  induction queue with
  | nil => rfl
  | cons buf queue ih =>
    rw [queueMarks_cons, queueBytes_cons, List.map_append, buf.map_fst_marks, ih]

lemma length_queueMarks (queue : List RcvBuf) :
    (queueMarks queue).length = (queueBytes queue).length := by
  rw [← map_fst_queueMarks, List.length_map]

lemma queueMarks_run (hrun : ∀ buf ∈ run, buf.Only urgent) :
    queueMarks (run ++ behind) = (queueBytes run).map (·, urgent) ++ queueMarks behind := by
  induction run with
  | nil => rfl
  | cons buf run ih =>
    rw [List.forall_mem_cons] at hrun
    rw [List.cons_append, queueMarks_cons, ih hrun.2, RcvBuf.marks_of_only hrun.1, queueBytes_cons,
      List.map_append, List.append_assoc]

lemma take_queueMarks_run (hrun : ∀ buf ∈ run, buf.Only urgent)
    (hle : n ≤ (queueBytes run).length) :
    (queueMarks (run ++ behind)).take n =
      ((queueBytes (run ++ behind)).take n).map (·, urgent) := by
  rw [queueMarks_run hrun, queueBytes_append, List.take_append_of_le_length (by simpa using hle),
    List.take_append_of_le_length hle, List.map_take]

lemma queueTrim_zero (queue : List RcvBuf) : queueTrim queue 0 = queue := by
  cases queue with
  | nil => rfl
  | cons buf queue => exact if_pos rfl

lemma queueTrim_whole (hle : buf.totalSize ≤ n) (hne : buf.data ≠ []) :
    queueTrim (buf :: queue) n = queueTrim queue (n - buf.totalSize) := by
  have hpos : 0 < buf.totalSize := List.length_pos_of_ne_nil hne
  rw [queueTrim, if_neg (by omega), if_pos hle]

lemma queueTrim_part (hpos : n ≠ 0) (hlt : n < buf.totalSize) :
    queueTrim (buf :: queue) n = { buf with data := buf.data.drop n } :: queue := by
  rw [queueTrim, if_neg hpos, if_neg (by omega)]

lemma RcvBuf.only_drop (h : buf.Only urgent) :
    ({ buf with data := buf.data.drop n } : RcvBuf).Only urgent := by
  unfold RcvBuf.Only at h ⊢
  cases urgent with
  | true =>
    grind
  | false => exact h

lemma follows_drop {next : RcvBuf} (h : buf.Only urgent) (hlt : n < buf.totalSize)
    (hfol : Follows buf next) : Follows { buf with data := buf.data.drop n } next := by
  rintro ⟨hfull, hmix⟩
  refine hfol ⟨?_, hmix⟩
  change (buf.data.drop n).length ≤ buf.urgLen at hfull
  rw [List.length_drop] at hfull
  unfold RcvBuf.Only at h
  change n < buf.data.length at hlt
  cases urgent with
  | true => exact h
  | false =>
    rw [if_neg (by decide)] at h
    omega

lemma Orderly.tail (h : Orderly (buf :: queue)) : Orderly queue :=
  ⟨fun next hnext => h.data_ne next (List.mem_cons_of_mem _ hnext), h.chain.tail⟩

lemma Orderly.head (h : Orderly (buf :: queue)) (hne : entry.data ≠ [])
    (hfol : ∀ next, Follows buf next → Follows entry next) : Orderly (entry :: queue) := by
  refine ⟨?_, h.chain.cons_of_imp hfol⟩
  rw [List.forall_mem_cons]
  exact ⟨hne, h.tail.data_ne⟩

lemma queueBytes_trim (queue : List RcvBuf) (n : ℕ) :
    queueBytes (queueTrim queue n) = (queueBytes queue).drop n := by
  induction queue generalizing n with
  | nil => exact List.drop_nil.symm
  | cons buf queue ih =>
    grind [queueTrim, queueBytes_cons, List.drop_append, List.drop_of_length_le]

lemma queueTrim_run (hord : Orderly (run ++ behind)) (hrun : ∀ buf ∈ run, buf.Only urgent)
    (hle : n ≤ (queueBytes run).length) :
    Orderly (queueTrim (run ++ behind) n) ∧
      queueMarks (queueTrim (run ++ behind) n) = (queueMarks (run ++ behind)).drop n := by
  induction run generalizing n with
  | nil =>
    have hzero : n = 0 := by simpa [queueBytes] using hle
    subst hzero
    rw [queueTrim_zero]
    exact ⟨hord, rfl⟩
  | cons buf run ih =>
    rw [List.forall_mem_cons] at hrun
    rw [queueBytes_cons, List.length_append] at hle
    rw [List.cons_append] at hord ⊢
    have hne := hord.data_ne buf List.mem_cons_self
    have hmar : buf.marks.length = buf.totalSize := by
      rw [RcvBuf.marks_of_only hrun.1, List.length_map]
    change n ≤ buf.totalSize + _ at hle
    rcases Nat.lt_or_ge n buf.totalSize with hpart | hwho
    · by_cases hzero : n = 0
      · subst hzero
        rw [queueTrim_zero]
        exact ⟨hord, rfl⟩
      · rw [queueTrim_part hzero hpart]
        have hdrop : buf.data.drop n ≠ [] := by
          intro h
          exact absurd (List.drop_eq_nil_iff.mp h) (Nat.not_le_of_lt hpart)
        refine ⟨hord.head hdrop fun next => follows_drop hrun.1 hpart, ?_⟩
        rw [queueMarks_cons, queueMarks_cons, List.drop_append_of_le_length (by omega),
          RcvBuf.marks_of_only hrun.1, RcvBuf.marks_of_only (RcvBuf.only_drop hrun.1),
          List.map_drop]
    · rw [queueTrim_whole hwho hne, queueMarks_cons, List.drop_append, hmar,
        List.drop_of_length_le (by omega), List.nil_append]
      exact ih hord.tail hrun.2 (by omega)

/-! ### How much to deliver -/

lemma dataToRcvLoop_run (hord : Orderly (buf :: rest)) (honly : buf.Only isUrg)
    (hlt : dataLen + (queueBytes rest).length < 2 ^ 32) :
    ∃ run behind, rest = run ++ behind ∧ (∀ buf ∈ run, buf.Only isUrg) ∧
      dataToRcvLoop isUrg bufLen rest dataLen =
        (rest, min bufLen (dataLen + (queueBytes run).length)) := by
  induction rest generalizing buf dataLen with
  | nil => exact ⟨[], [], rfl, nofun, rfl⟩
  | cons entry rest ih =>
    rw [queueBytes_cons, List.length_append] at hlt
    change dataLen + (entry.totalSize + _) < 2 ^ 32 at hlt
    rw [dataToRcvLoop]
    by_cases hless : dataLen < bufLen
    · rw [if_pos hless]
      by_cases hkind : isUrg = decide (0 < entry.urgLen)
      · have hpure : ¬ (isUrg = true ∧ entry.urgLen < entry.totalSize) := by
          rintro ⟨rfl, hpart⟩
          have hpos : 0 < entry.urgLen := of_decide_eq_true hkind.symm
          exact (List.isChain_cons_cons.mp hord.chain).1 ⟨honly, hpos, hpart⟩
        have hent : entry.Only isUrg := by
          unfold RcvBuf.Only
          cases isUrg with
          | true => exact Nat.le_of_not_lt fun hpart => hpure ⟨rfl, hpart⟩
          | false => exact Nat.eq_zero_of_not_pos (of_decide_eq_false hkind.symm)
        obtain ⟨run, behind, hrest, hrun, hloop⟩ :=
          @ih entry (dataLen + entry.totalSize) hord.tail hent (by omega)
        refine ⟨entry :: run, behind, congrArg (entry :: ·) hrest,
          List.forall_mem_cons.mpr ⟨hent, hrun⟩, ?_⟩
        rw [if_neg (not_not_intro hkind), if_neg hpure, u32_of_lt (by omega), hloop,
          queueBytes_cons, List.length_append, Nat.add_assoc]
      · rw [if_pos hkind]
        exact ⟨[], entry :: rest, rfl, nofun, rfl⟩
    · rw [if_neg hless]
      exact ⟨[], entry :: rest, rfl, nofun, rfl⟩

lemma dataToRcvLoop_full (hle : bufLen ≤ dataLen) :
    dataToRcvLoop isUrg bufLen rest dataLen = (rest, bufLen) := by
  cases rest with
  | nil => exact congrArg _ (Nat.min_eq_left hle)
  | cons entry rest =>
    rw [dataToRcvLoop, if_neg (by omega)]
    exact congrArg _ (Nat.min_eq_left hle)

/-- A token takes bytes from the front. -/
structure Drains (queue : List RcvBuf) (bufLen : ℕ) (queue' : List RcvBuf) (isUrg : Bool)
    (n : ℕ) : Prop where
  run : sockTcpDataToRcv queue bufLen = .ok (queue', isUrg, n)
  bytes_eq : queueBytes queue' = queueBytes queue
  pos : 0 < n
  le_bufLen : n ≤ bufLen
  le_length : n ≤ (queueBytes queue).length

/-- A token takes bytes of one kind, and the queue keeps telling the urgent ones. -/
structure Takes (queue : List RcvBuf) (bufLen : ℕ) (queue' : List RcvBuf) (isUrg : Bool)
    (n : ℕ) : Prop extends Drains queue bufLen queue' isUrg n where
  marks_take : (queueMarks queue).take n = ((queueBytes queue).take n).map (·, isUrg)
  marks_drop : queueMarks (queueTrim queue' n) = (queueMarks queue).drop n

lemma takes_only (hord : Orderly (buf :: rest)) (honly : buf.Only isUrg)
    (hurg : isUrg = decide (0 < buf.urgLen)) (hlt : (queueBytes (buf :: rest)).length < 2 ^ 32)
    (hbuf : 0 < bufLen) :
    ∃ n, Takes (buf :: rest) bufLen (buf :: rest) isUrg n ∧
      min bufLen buf.totalSize ≤ n ∧ Orderly (queueTrim (buf :: rest) n) := by
  have hpos : 0 < buf.totalSize :=
    List.length_pos_of_ne_nil (hord.data_ne buf List.mem_cons_self)
  have hnot : ¬ (decide (0 < buf.urgLen) = true ∧ buf.urgLen < buf.totalSize) := by
    rw [← hurg]
    rintro ⟨rfl, hpart⟩
    exact absurd hpart (Nat.not_lt_of_le honly)
  obtain ⟨run, behind, rfl, hrun, hloop⟩ :=
    @dataToRcvLoop_run rest buf isUrg bufLen buf.totalSize hord honly
      (by simpa [queueBytes_cons] using hlt)
  have hall : ∀ next ∈ buf :: run, next.Only isUrg := List.forall_mem_cons.mpr ⟨honly, hrun⟩
  have hlen : (queueBytes (buf :: run)).length = buf.totalSize + (queueBytes run).length := by
    rw [queueBytes_cons, List.length_append]
  have hle : min bufLen (buf.totalSize + (queueBytes run).length) ≤
      (queueBytes (buf :: run)).length := by omega
  obtain ⟨hord', hdrop⟩ := @queueTrim_run (buf :: run) behind isUrg _ hord hall hle
  refine ⟨min bufLen (buf.totalSize + (queueBytes run).length), ⟨⟨?_, rfl, by omega, by omega, ?_⟩,
    take_queueMarks_run hall hle, hdrop⟩, by omega, hord'⟩
  · unfold sockTcpDataToRcv
    dsimp only
    rw [if_neg hnot, ← hurg, hloop]
  · rw [← List.cons_append, queueBytes_append, List.length_append]
    omega

lemma RcvBuf.take_marks (hle : n ≤ buf.urgLen) :
    buf.marks.take n = (buf.data.take n).map (·, true) := by
  unfold RcvBuf.marks
  rcases Nat.le_total n buf.totalSize with hsize | hsize
  · grind [List.length_map, List.length_take, List.map_take, Nat.min_eq_left]
  · rw [List.drop_of_length_le (hsize.trans hle), List.map_nil, List.append_nil, ← List.map_take,
      List.take_take, Nat.min_eq_left hle]

lemma RcvBuf.drop_marks (hle : n ≤ buf.urgLen) :
    buf.marks.drop n = RcvBuf.marks ⟨buf.data.drop n, buf.urgLen - n⟩ := by
  unfold RcvBuf.marks
  dsimp only
  rw [List.drop_drop, Nat.add_sub_of_le hle]
  rcases Nat.le_total n buf.totalSize with hsize | hsize
  · have hlen : n ≤ ((buf.data.take buf.urgLen).map (·, true)).length := by
      rw [List.length_map, List.length_take]
      exact le_min hle hsize
    rw [List.drop_append_of_le_length hlen, ← List.map_drop, List.drop_take]
  · have hnil : buf.data.drop buf.urgLen = [] := List.drop_of_length_le (hsize.trans hle)
    have hnil' : buf.data.drop n = [] := List.drop_of_length_le hsize
    rw [hnil, hnil', List.map_nil, List.append_nil, List.append_nil, ← List.map_drop,
      List.drop_take, hnil']

lemma takes_mixed (hmix : buf.Mixed) (hbuf : 0 < bufLen) :
    ∃ n, n = min buf.urgLen bufLen ∧
      Takes (buf :: rest) bufLen ({ buf with urgLen := buf.urgLen - n } :: rest) true n ∧
      queueTrim ({ buf with urgLen := buf.urgLen - n } :: rest) n =
        ⟨buf.data.drop n, buf.urgLen - n⟩ :: rest := by
  obtain ⟨hpos, hpart⟩ := hmix
  obtain ⟨n, hn⟩ : ∃ n, n = min buf.urgLen bufLen := ⟨_, rfl⟩
  have hlt : n < buf.totalSize := by omega
  have htrim := @queueTrim_part rest ⟨buf.data, buf.urgLen - n⟩ n (by omega) hlt
  have hmar : n ≤ buf.marks.length := by
    rw [← List.length_map Prod.fst, buf.map_fst_marks]
    exact hlt.le
  refine ⟨n, hn, ⟨⟨?_, rfl, by omega, by omega, ?_⟩, ?_, ?_⟩, htrim⟩
  · grind [sockTcpDataToRcv]
  · grind [queueBytes_cons, List.length_append]
  · grind [queueMarks_cons, RcvBuf.take_marks, queueBytes_cons]
  · grind [queueMarks_cons, RcvBuf.drop_marks]

lemma takes_of_orderly (hord : Orderly queue) (hne : queue ≠ [])
    (hlt : (queueBytes queue).length < 2 ^ 32) (hbuf : 0 < bufLen) :
    ∃ queue' isUrg n, Takes queue bufLen queue' isUrg n ∧ Orderly (queueTrim queue' n) := by
  match queue, hne with
  | buf :: rest, _ =>
    rcases buf.mixed_or_only with hmix | honly
    · obtain ⟨n, hn, htak, htrim⟩ := takes_mixed hmix hbuf
      obtain ⟨hpos, hpart⟩ := hmix
      change buf.urgLen < buf.data.length at hpart
      have hdrop : buf.data.drop n ≠ [] := by
        intro h
        exact absurd (List.drop_eq_nil_iff.mp h) (by omega)
      refine ⟨_, true, n, htak, ?_⟩
      rw [htrim]
      refine hord.head hdrop fun next _ => ?_
      rintro ⟨hfull, -⟩
      change (buf.data.drop n).length ≤ buf.urgLen - n at hfull
      rw [List.length_drop] at hfull
      omega
    · obtain ⟨n, htak, -, hord'⟩ := takes_only hord honly rfl hlt hbuf
      exact ⟨_, _, n, htak, hord'⟩

lemma rxDataLoop_bytes {fragments : List FragmentData}
    (hsum : n ≤ (fragments.map FragmentData.fragmentLength).sum)
    (hle : offSet + n ≤ content.length) :
    ((rxDataLoop content fragments n offSet).flatMap fun fragment =>
      fragment.fragmentBuffer.take fragment.fragmentLength).take n =
        (content.drop offSet).take n := by
  induction fragments generalizing n offSet with
  | nil =>
    have hzero : n = 0 := by simpa using hsum
    rw [hzero, List.take_zero, List.take_zero]
  | cons fragment fragments ih =>
    rw [List.map_cons, List.sum_cons] at hsum
    rcases Nat.eq_zero_or_pos n with hzero | hpos
    · rw [hzero, List.take_zero, List.take_zero]
    · have hlen : ((content.drop offSet).take (min fragment.fragmentLength n)).length =
          min fragment.fragmentLength n := by
        rw [List.length_take, List.length_drop]
        omega
      rw [rxDataLoop, if_pos hpos]
      dsimp only
      rw [List.flatMap_cons, List.take_append_of_le_length hlen.ge,
        List.take_of_length_le hlen.le, List.take_append, hlen,
        List.take_of_length_le (by omega), ih (by omega) (by omega)]
      rw [← List.drop_drop, ← List.take_add]
      congr 1
      omega

lemma RcvToken.dataLength_le (token : RcvToken) :
    token.rxData.dataLength ≤ (token.rxData.fragmentTable.map FragmentData.fragmentLength).sum := by
  have hchk : token.rxData.dataLength = u32 _ := of_decide_eq_true token.chkDataBuf
  rw [hchk]
  exact Nat.mod_le _ _

lemma Drains.process {token : RcvToken} {queue' : List RcvBuf}
    (h : Drains queue token.rxData.dataLength queue' isUrg n) :
    ∃ rxData, sockProcessRcvToken queue token.rxData = .ok (queueTrim queue' n, rxData, n) ∧
      rxData.marks = ((queueBytes queue).take n).map (·, isUrg) := by
  have hset : sockSetTcpRxData queue' token.rxData n isUrg =
      .ok ⟨isUrg, n, rxDataLoop (queueBytes queue') token.rxData.fragmentTable n 0⟩ :=
    if_neg (Nat.not_lt_of_le h.le_bufLen)
  refine ⟨⟨isUrg, n, rxDataLoop (queueBytes queue') token.rxData.fragmentTable n 0⟩, ?_, ?_⟩
  · simp [h.run, ok_bind, hset, sockProcessRcvToken]
  · have hsum := h.le_bufLen.trans token.dataLength_le
    have hle : 0 + n ≤ (queueBytes queue').length := by
      rw [h.bytes_eq, Nat.zero_add]
      exact h.le_length
    unfold ReceiveData.marks ReceiveData.bytes
    dsimp only
    rw [rxDataLoop_bytes hsum hle, h.bytes_eq, List.drop_zero]

lemma Drains.wake {token : RcvToken} {queue' : List RcvBuf}
    (h : Drains queue token.rxData.dataLength queue' isUrg n)
    (hlt : (queueBytes queue).length < 2 ^ 32) (tokens : List RcvToken) :
    ∃ rxData, rxData.marks = ((queueBytes queue).take n).map (·, isUrg) ∧
      wakeRcvTokenLoop (token :: tokens) queue (queueBytes queue).length =
        (wakeRcvTokenLoop tokens (queueTrim queue' n) (queueBytes (queueTrim queue' n)).length >>=
          fun result => .ok (rxData :: result.1, result.2)) := by
  obtain ⟨rxData, hpro, hmar⟩ := h.process
  have hpos := h.pos
  have hle := h.le_length
  refine ⟨rxData, hmar, ?_⟩
  rw [wakeRcvTokenLoop, if_pos (by omega), hpro, ok_bind]
  dsimp only
  rw [if_neg (by omega), queueBytes_trim, List.length_drop, h.bytes_eq, sub32_of_le hle hlt]
  rfl

lemma wakeRcvTokenLoop_orderly (tokens : List RcvToken) (hord : Orderly queue)
    (hlt : (queueBytes queue).length < 2 ^ 32) :
    ∃ received queue' waiting,
      wakeRcvTokenLoop tokens queue (queueBytes queue).length = .ok (received, queue', waiting) ∧
      received.flatMap ReceiveData.marks <+: queueMarks queue := by
  induction tokens generalizing queue with
  | nil => exact ⟨[], queue, [], rfl, List.nil_prefix⟩
  | cons token tokens ih =>
    by_cases hne : queue = []
    · subst hne
      exact ⟨[], [], token :: tokens, rfl, List.nil_prefix⟩
    · have hbuf := Nat.pos_of_ne_zero token.dataLength_ne
      obtain ⟨queue', isUrg, n, htak, hord'⟩ := takes_of_orderly hord hne hlt hbuf
      obtain ⟨rxData, hmar, hwake⟩ := htak.toDrains.wake hlt tokens
      rw [← htak.marks_take] at hmar
      have hlen : (queueBytes (queueTrim queue' n)).length < 2 ^ 32 := by
        rw [← length_queueMarks, htak.marks_drop, List.length_drop, length_queueMarks]
        omega
      obtain ⟨received, queue'', waiting, hrun, hrep⟩ := ih hord' hlen
      refine ⟨rxData :: received, queue'', waiting, ?_, ?_⟩
      · rw [hwake, hrun]
        rfl
      · rw [List.flatMap_cons, hmar]
        rw [htak.marks_drop] at hrep
        have happ := (List.prefix_append_right_inj ((queueMarks queue).take n)).mpr hrep
        rwa [List.take_append_drop] at happ

/-! ### Two buffers that are not told apart -/

/-- A token for `n` bytes in one fragment. -/
def tokenOf (n : ℕ) (hpos : n ≠ 0) (hlt : n < 2 ^ 32) : RcvToken where
  rxData := ⟨false, n, [⟨n, []⟩]⟩
  dataLength_lt := hlt
  dataLength_ne := hpos
  chkDataBuf := decide_eq_true (u32_of_lt hlt).symm

/-- The tokens do not report the bytes of the queue as they arrived. -/
def Misreports (arrived : List (UInt8 × Bool)) (queue : List RcvBuf) (tokens : List RcvToken) :
    Prop :=
  ∀ received queue' waiting,
    wakeRcvTokenLoop tokens queue (queueBytes queue).length = .ok (received, queue', waiting) →
      ¬ received.flatMap ReceiveData.marks <+: arrived

lemma Drains.misreports {token : RcvToken} {tokens : List RcvToken} {queue' : List RcvBuf}
    {arrived : List (UInt8 × Bool)}
    (h : Drains queue token.rxData.dataLength queue' isUrg n)
    (hlt : (queueBytes queue).length < 2 ^ 32)
    (htok : Misreports arrived (queueTrim queue' n) tokens) :
    Misreports (((queueBytes queue).take n).map (·, isUrg) ++ arrived) queue (token :: tokens) := by
  intro received queue'' waiting hrun hrep
  obtain ⟨rxData, hmar, hwake⟩ := h.wake hlt tokens
  rw [hwake] at hrun
  obtain ⟨⟨received', queue₁, waiting'⟩, hrun', hres⟩ := bind_eq_ok.mp hrun
  obtain ⟨rfl, -⟩ := Prod.mk.inj (Except.ok.inj hres)
  rw [List.flatMap_cons, hmar] at hrep
  exact htok _ _ _ hrun' ((List.prefix_append_right_inj _).mp hrep)

lemma Takes.misreports {token : RcvToken} {tokens : List RcvToken} {queue' : List RcvBuf}
    (h : Takes queue token.rxData.dataLength queue' isUrg n)
    (hlt : (queueBytes queue).length < 2 ^ 32)
    (htok : Misreports (queueMarks (queueTrim queue' n)) (queueTrim queue' n) tokens) :
    Misreports (queueMarks queue) queue (token :: tokens) := by
  have hmis := h.toDrains.misreports hlt htok
  rwa [← h.marks_take, h.marks_drop, List.take_append_drop] at hmis

lemma misreports_cleared (hmix : entry.Mixed)
    (hlt : (queueBytes (entry :: rest)).length < 2 ^ 32) :
    Misreports (queueMarks (entry :: rest)) ({ entry with urgLen := 0 } :: rest)
      [tokenOf 1 (by decide) (by decide)] := by
  obtain ⟨hpos, hpart⟩ := hmix
  have hloop : dataToRcvLoop false 1 rest entry.totalSize = (rest, 1) :=
    dataToRcvLoop_full (by omega)
  have hdra : Drains ({ entry with urgLen := 0 } :: rest)
      (tokenOf 1 (by decide) (by decide)).rxData.dataLength
      ({ entry with urgLen := 0 } :: rest) false 1 := by
    refine ⟨?_, rfl, by decide, le_rfl, ?_⟩
    · change sockTcpDataToRcv (⟨entry.data, 0⟩ :: rest) 1 = _
      unfold sockTcpDataToRcv
      dsimp only
      rw [if_neg (by simp), decide_eq_false (by decide), hloop]
    · grind [queueBytes_cons, List.length_append]
  intro received queue' waiting hrun hrep
  obtain ⟨rxData, hmar, hwake⟩ := hdra.wake hlt []
  rw [hwake] at hrun
  obtain ⟨rfl, -⟩ := Prod.mk.inj (Except.ok.inj hrun)
  rw [List.flatMap_singleton, hmar, queueMarks_cons] at hrep
  obtain ⟨data, urgLen⟩ := entry
  obtain ⟨byte, data, rfl⟩ := List.exists_cons_of_length_pos (Nat.zero_lt_of_lt hpart)
  obtain ⟨urgLen, rfl⟩ := Nat.exists_eq_succ_of_ne_zero hpos.ne'
  have hflag := (List.cons_prefix_cons.mp hrep).1
  exact Bool.false_ne_true (congrArg Prod.snd hflag)

lemma misreports_pair (hfull : buf.totalSize ≤ buf.urgLen) (hne : buf.data ≠ [])
    (hmix : entry.Mixed) (hlt : (queueBytes (buf :: entry :: rest)).length < 2 ^ 32) :
    ∃ tokens, Misreports (queueMarks (buf :: entry :: rest)) (buf :: entry :: rest) tokens := by
  have hpos : 0 < buf.totalSize := List.length_pos_of_ne_nil hne
  have hlen := hlt
  rw [length_queueBytes_cons, length_queueBytes_cons] at hlen
  have hcle := @misreports_cleared rest entry hmix (by rw [length_queueBytes_cons]; omega)
  obtain ⟨hurg, hpart⟩ := hmix
  have htrim : queueTrim (buf :: { entry with urgLen := 0 } :: rest) buf.totalSize =
      { entry with urgLen := 0 } :: rest := by
    rw [queueTrim_whole le_rfl hne, Nat.sub_self, queueTrim_zero]
  have hbuf : buf.marks = (buf.data).map (·, true) := RcvBuf.marks_of_only hfull
  have hdra : Drains (buf :: entry :: rest)
      (tokenOf (entry.urgLen + buf.totalSize + 1) (by omega) (by omega)).rxData.dataLength
      (buf :: { entry with urgLen := 0 } :: rest) true buf.totalSize := by
    refine ⟨?_, rfl, hpos, by change _ ≤ entry.urgLen + buf.totalSize + 1; omega, ?_⟩
    swap
    · rw [length_queueBytes_cons]
      omega
    change sockTcpDataToRcv (buf :: entry :: rest) (entry.urgLen + buf.totalSize + 1) = _
    unfold sockTcpDataToRcv dataToRcvLoop
    dsimp only
    rw [decide_eq_true (by omega : 0 < buf.urgLen), if_neg (by omega), if_pos (by omega),
      decide_eq_true hurg, if_neg (not_not_intro rfl), if_pos ⟨rfl, hpart⟩,
      u32_of_lt (by omega), if_pos (by omega), u32_of_lt (by omega), Nat.zero_add,
      Nat.min_eq_left (by omega)]
  have hmis := hdra.misreports hlt (htrim.symm ▸ hcle)
  rw [queueBytes_cons, List.take_left, ← hbuf] at hmis
  exact ⟨_, hmis⟩

lemma takes_exactly (honly : buf.Only isUrg) (hurg : isUrg = decide (0 < buf.urgLen))
    (hne : buf.data ≠ []) :
    Takes (buf :: rest) buf.totalSize (buf :: rest) isUrg buf.totalSize ∧
      queueTrim (buf :: rest) buf.totalSize = rest := by
  have hpos : 0 < buf.totalSize := List.length_pos_of_ne_nil hne
  have hnot : ¬ (decide (0 < buf.urgLen) = true ∧ buf.urgLen < buf.totalSize) := by
    rw [← hurg]
    rintro ⟨rfl, hpart⟩
    exact absurd hpart (Nat.not_lt_of_le honly)
  have hmar : buf.marks.length = buf.totalSize := by
    rw [RcvBuf.marks_of_only honly, List.length_map]
  have htrim : queueTrim (buf :: rest) buf.totalSize = rest := by
    rw [queueTrim_whole le_rfl hne, Nat.sub_self, queueTrim_zero]
  refine ⟨⟨⟨?_, rfl, hpos, le_rfl, ?_⟩, ?_, ?_⟩, htrim⟩
  · grind [dataToRcvLoop_full, sockTcpDataToRcv]
  · rw [length_queueBytes_cons]
    exact Nat.le_add_right _ _
  · rw [queueMarks_cons, queueBytes_cons, List.take_left' hmar, List.take_left,
      RcvBuf.marks_of_only honly]
  · rw [htrim, queueMarks_cons, List.drop_left' hmar]

lemma misreports_cons (hne : buf.data ≠ []) (hlt : (queueBytes (buf :: rest)).length < 2 ^ 32)
    (h : ∃ tokens, Misreports (queueMarks rest) rest tokens) :
    ∃ tokens, Misreports (queueMarks (buf :: rest)) (buf :: rest) tokens := by
  have honce : ∀ buf : RcvBuf, buf.Only (decide (0 < buf.urgLen)) → buf.data ≠ [] →
      (queueBytes (buf :: rest)).length < 2 ^ 32 →
      ∃ tokens, Misreports (queueMarks (buf :: rest)) (buf :: rest) tokens := by
    intro buf honly hne hlt
    obtain ⟨tokens, hrest⟩ := h
    obtain ⟨htak, htrim⟩ := @takes_exactly rest buf _ honly rfl hne
    have hsize : buf.totalSize < 2 ^ 32 := by
      rw [length_queueBytes_cons] at hlt
      omega
    exact ⟨tokenOf buf.totalSize (List.length_pos_of_ne_nil hne).ne' hsize :: tokens,
      htak.misreports hlt (htrim.symm ▸ hrest)⟩
  rcases buf.mixed_or_only with hmix | honly
  · obtain ⟨n, hn, htak, htrim⟩ := @takes_mixed rest buf buf.urgLen hmix hmix.1
    rw [Nat.min_self] at hn
    subst hn
    obtain ⟨hpos, hpart⟩ := hmix
    rw [length_queueBytes_cons] at hlt
    have hdrop : buf.data.drop buf.urgLen ≠ [] := by
      intro hnil
      exact absurd (List.drop_eq_nil_iff.mp hnil) (Nat.not_le_of_lt hpart)
    rw [Nat.sub_self] at htak htrim
    obtain ⟨tokens, hrest⟩ := honce ⟨buf.data.drop buf.urgLen, 0⟩ rfl hdrop (by
      rw [length_queueBytes_cons]
      change (buf.data.drop buf.urgLen).length + _ < _
      rw [List.length_drop]
      change buf.data.length + _ < _ at hlt
      omega)
    refine ⟨tokenOf buf.urgLen hpos.ne' (by omega) :: tokens, ?_⟩
    exact htak.misreports (by rwa [length_queueBytes_cons]) (htrim.symm ▸ hrest)
  · exact honce buf honly hne hlt

lemma exists_misreports (hne : ∀ buf ∈ queue, buf.data ≠ [])
    (hlt : (queueBytes queue).length < 2 ^ 32) (hcha : ¬ queue.IsChain Follows) :
    ∃ tokens, Misreports (queueMarks queue) queue tokens := by
  induction queue with
  | nil => exact absurd .nil hcha
  | cons buf rest ih =>
    rw [List.forall_mem_cons] at hne
    match rest with
    | [] => exact absurd (.singleton buf) hcha
    | entry :: rest =>
      rw [List.isChain_cons_cons, not_and_or] at hcha
      rcases hcha with hpair | hcha
      · obtain ⟨hfull, hmix⟩ := not_not.mp hpair
        exact misreports_pair hfull hne.1 hmix hlt
      · grind [length_queueBytes_cons, misreports_cons]

/-- However the tokens are cut, they report each byte of the queue as what it is, exactly when no
buffer that is urgent throughout is followed by one that is urgent in part. -/
theorem sockWakeRcvToken_iff (queue : DataQueue) :
    (∀ rcvTokenList, ReportsArrived queue rcvTokenList) ↔ queue.bufList.IsChain Follows := by
  constructor
  · intro h
    by_contra hchain
    obtain ⟨tokens, hmisreports⟩ :=
      exists_misreports queue.data_ne queue.bufSize_lt hchain
    obtain ⟨received, queue', waiting, hrun, hreports⟩ := h tokens
    exact hmisreports received queue' waiting hrun hreports
  · intro hchain rcvTokenList
    exact wakeRcvTokenLoop_orderly rcvTokenList ⟨queue.data_ne, hchain⟩ queue.bufSize_lt

/-- Three urgent bytes in two buffers, the second of which goes on with a normal one. -/
def urgentPair : DataQueue where
  bufList := [⟨[1, 2], 2⟩, ⟨[3, 4], 1⟩]
  data_ne := by decide
  bufSize_lt := by decide

/-- A token of four bytes receives two of the three urgent ones, and the next token receives the
third as a normal byte. -/
theorem not_reportsArrived_urgentPair :
    ¬ ReportsArrived urgentPair
      [tokenOf 4 (by decide) (by decide), tokenOf 1 (by decide) (by decide)] := by
  rintro ⟨received, queue', waiting, hrun, hreports⟩
  have hreceived : sockWakeRcvToken urgentPair
      [tokenOf 4 (by decide) (by decide), tokenOf 1 (by decide) (by decide)] =
      .ok ([⟨true, 2, [⟨2, [1, 2]⟩]⟩, ⟨false, 1, [⟨1, [3]⟩]⟩], [⟨[4], 0⟩], []) := rfl
  rw [hreceived] at hrun
  obtain ⟨rfl, -⟩ := Prod.mk.inj (Except.ok.inj hrun)
  exact absurd hreports (by decide)

end Edk2.Tcp
