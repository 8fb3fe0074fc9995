import Edk2.BootScript.Run

/-!
# Resuming from S3

At runtime the LockBox of the script is kept in step with the table, and a resume restores it. The
script of the boot time has a LockBox of its own: the first call after a resume restores it from
there, so that every cycle starts with the same script.
-/

namespace Edk2.BootScript

open Bytes LockBox

variable {reserve : ℕ} {s s' t : State} {records : List (List Byte)} {op : Op}
  {memory : ℕ → Byte} {a stop fuel size n : ℕ}

/-- The loop of `S3BootScriptExecute`, with the records that it comes to. -/
def executeLoop (memory : ℕ → Byte) (stop : ℕ) : ℕ → ℕ → Option (List (List Byte))
  | 0, script => if script < stop ∧ opCodeAt memory script ≠ 0xFF then none else some []
  | fuel + 1, script =>
    if script < stop ∧ opCodeAt memory script ≠ 0xFF then
      (executeLoop memory stop fuel (script + lengthAt memory script)).map
        (bytesAt memory script (lengthAt memory script) :: ·)
    else some []

def s3BootScriptExecute (memory : ℕ → Byte) (tableBase : ℕ) : Option (List (List Byte)) :=
  if tableBase = 0 ∨ opCodeAt memory tableBase ≠ 0xAA then none
  else
    let tableLength := fieldValue (bytesAt memory (tableBase + 5) 4)
    executeLoop memory (tableBase + tableLength) tableLength
      (tableBase + lengthAt memory tableBase)

/-- The records that are executed at a resume. -/
def replayed (s : State) : Option (List (List Byte)) :=
  s3BootScriptExecute (resume s).memory s.ptr.tableBase

lemma executeLoop_eq (hwf : ∀ r ∈ records, WellFormed r)
    (hm : bytesAt memory a records.flatten.length = records.flatten)
    (hstop : a + records.flatten.length ≤ stop) (hfuel : records.flatten.length ≤ fuel)
    (hter : bytesAt memory (a + records.flatten.length) terminateSize = scriptTerminate) :
    executeLoop memory stop fuel a = some records := by
  induction records generalizing a fuel with
  | nil =>
    have hopC : opCodeAt memory a = 0xFF := by
      rw [opCodeAt_eq_iff (by decide)]
      have htake := congrArg (List.take 2) hter
      rwa [take_bytesAt (by decide)] at htake
    cases fuel <;> simp [executeLoop, hopC]
  | cons r records ih =>
    have hr := hwf r List.mem_cons_self
    have hle := hr.le
    obtain ⟨hfst, hrest⟩ := bytesAt_flatten_cons.mp hm
    rw [List.flatten_cons, List.length_append] at hstop hfuel hter
    obtain ⟨fuel, rfl⟩ : ∃ k, fuel = k + 1 := ⟨fuel - 1, by omega⟩
    have hopC : opCodeAt memory a ≠ 0xFF := by
      intro heq
      rw [opCodeAt_eq_iff (by decide), take_of_bytesAt hr hfst] at heq
      exact hr.opCode heq
    grind [Nat.add_assoc, lengthAt_of_wellFormed, executeLoop]

/-! ### Scripts -/

/-- The bytes of the table, with its terminate record. -/
def State.script (s : State) : List Byte :=
  bytesAt s.memory s.ptr.tableBase (s.ptr.tableLength + terminateSize)

/-- The bytes of a table that is closed behind the records. -/
structure Closed (script : List Byte) (records : List (List Byte)) : Prop where
  length : script.length = headerSize + records.flatten.length + terminateSize
  header : script.take 3 = [0xAA, 0x00, 0x0D]
  total : (script.drop 5).take 4 = field 4 script.length
  contents : (script.drop headerSize).take records.flatten.length = records.flatten
  terminate : script.drop (headerSize + records.flatten.length) = scriptTerminate

lemma length_script : s.script.length = s.ptr.tableLength + terminateSize := length_bytesAt

lemma take_drop_script {offset : ℕ} (h : offset + size ≤ s.ptr.tableLength + terminateSize) :
    (s.script.drop offset).take size = bytesAt s.memory (s.ptr.tableBase + offset) size := by
  grind [drop_bytesAt, take_bytesAt, State.script]

lemma Locked.closed (h : Locked reserve s records) : Closed s.script records := by
  have hsiz := sizes
  have hlen := h.length h.base
  obtain ⟨box, -, hsyn⟩ := h.synced h.locked
  refine ⟨?_, ?_, ?_, ?_, ?_⟩
  · rw [length_script, hlen]
  · unfold State.script
    rw [take_bytesAt (by omega), h.header h.base]
  · rw [take_drop_script (by omega), hsyn.total, length_script]
  · rw [take_drop_script (by omega), h.contents h.base]
  · unfold State.script
    rw [drop_bytesAt (by omega), ← hlen, Nat.add_sub_cancel_left, hsyn.terminate]

lemma locked_of_closed (hawa : s.ptr.backFromS3 = false)
    (hans : ∀ n b, s.answers n = some b → b ≠ 0) (hwf : ∀ r ∈ records, WellFormed r)
    (hbase : s.ptr.tableBase ≠ 0)
    (hpag : reserve + 2 ≤ s.ptr.tableMemoryPageNumber ∧ s.ptr.tableMemoryPageNumber < 2 ^ 16)
    (hfits : s.ptr.tableLength + terminateSize ≤ s.ptr.tableMemoryPageNumber * 4096)
    (hloc : s.ptr.smmLocked = true) (hinS : s.ptr.inSmm = true)
    (hclo : Closed s.script records)
    (hbox : ∃ box, s.dataBox = some box ∧ box.buffer = s.ptr.tableBase ∧
      box.bytes.length = s.ptr.tableMemoryPageNumber * 4096 ∧
      box.bytes.take (s.ptr.tableLength + terminateSize) = s.script) :
    Locked reserve s records := by
  have hsiz := sizes
  have hlen : s.ptr.tableLength = headerSize + records.flatten.length := by
    have htot := hclo.length
    rw [length_script] at htot
    omega
  obtain ⟨box, hdata, hbuf, hboxL, hbyt⟩ := hbox
  refine ⟨⟨hawa, hans, hwf, fun hzero => absurd hzero hbase, fun _ => hpag, fun _ => ?_,
    fun _ => ?_, fun _ => hlen, fun _ => ?_, fun _ => ⟨box, hdata, hbuf, hboxL, hbyt,
    ?_, ?_⟩⟩, hloc, hinS⟩
  · have hhdr := hclo.header
    unfold State.script at hhdr
    rwa [take_bytesAt (by omega)] at hhdr
  · rw [← take_drop_script (by omega), hclo.contents]
  · rwa [capacity_of_locked hloc]
  · rw [← take_drop_script (by omega), hclo.total, length_script]
  · have hend := hclo.terminate
    unfold State.script at hend
    rwa [drop_bytesAt (by omega), ← hlen, Nat.add_sub_cancel_left] at hend

lemma bytesAt_writeBack {box : List Byte} {start len : ℕ} (hle : len ≤ box.length) :
    bytesAt (writeBytes memory start box) start len = box.take len := by
  rw [← take_bytesAt hle, bytesAt_writeBytes_self]

/-! ### What is kept -/

/-- The script that the runtime transition has captured, and its records. -/
structure Snapshot where
  script : List Byte
  records : List (List Byte)

structure Captured (s : State) (b : Snapshot) : Prop where
  atRuntime : s.ptr.atRuntime = true
  bootTimeBox : s.bootTimeBox = some b.script
  smmPrivateBox : s.smmPrivateBox = some { s.ptr with
    tableLength := headerSize + b.records.flatten.length
    backFromS3 := true }
  scriptLength : s.ptr.bootTimeScriptLength = b.script.length
  closed : Closed b.script b.records
  wellFormed : ∀ r ∈ b.records, WellFormed r
  fits : b.script.length ≤ s.ptr.tableMemoryPageNumber * 4096

/-- What holds of the system after `SmmReadyToLock`; `records` are those that the next call acts
on. -/
structure Kept (reserve : ℕ) (s : State) (boot : Option Snapshot) (records : List (List Byte)) :
    Prop where
  awake : s.ptr.backFromS3 = false → Locked reserve s records
  asleep : s.ptr.backFromS3 = true → ∃ b, boot = some b ∧ b.records = records
  absent : boot = none → s.ptr.atRuntime = false ∧ s.bootTimeBox = none ∧ s.smmPrivateBox = none
  captured : ∀ b, boot = some b → Captured s b
  answers : ∀ n b, s.answers n = some b → b ≠ 0
  base : s.ptr.tableBase ≠ 0
  pages : reserve + 2 ≤ s.ptr.tableMemoryPageNumber ∧ s.ptr.tableMemoryPageNumber < 2 ^ 16
  locked : s.ptr.smmLocked = true
  inSmm : s.ptr.inSmm = true
  box : ∃ box, s.dataBox = some box ∧ box.buffer = s.ptr.tableBase ∧
    box.bytes.length = s.ptr.tableMemoryPageNumber * 4096

variable {boot : Option Snapshot} {b : Snapshot}

lemma Locked.kept (h : Locked reserve s records)
    (habs : boot = none → s.ptr.atRuntime = false ∧ s.bootTimeBox = none ∧ s.smmPrivateBox = none)
    (hcap : ∀ b, boot = some b → Captured s b) : Kept reserve s boot records := by
  obtain ⟨box, hbox, hsyn⟩ := h.synced h.locked
  exact ⟨fun _ => h, fun hback => absurd (hback.symm.trans h.awake) Bool.noConfusion, habs,
    hcap, h.answers, h.base, h.pages h.base, h.locked, h.inSmm, box, hbox, hsyn.buffer,
    hsyn.length⟩

lemma Captured.of_frame (h : Captured s b) (hfra : Frame s s') : Captured s' b := by
  refine ⟨?_, ?_, ?_, ?_, h.closed, h.wellFormed, ?_⟩
  · rw [hfra.ptr]
    exact h.atRuntime
  · rw [hfra.bootTimeBox, h.bootTimeBox]
  · rw [hfra.smmPrivateBox, h.smmPrivateBox, hfra.ptr]
  · rw [hfra.ptr]
    exact h.scriptLength
  · rw [hfra.ptr]
    exact h.fits

/-! ### Waking up -/

/-- The script of the boot time is restored, and the flag is cleared. -/
def wake (s : State) : Option State := do
  let s ← restoreBootTimeDataFromLockBox s
  some { s with ptr := { s.ptr with backFromS3 := false } }

lemma Kept.wake (h : Kept reserve s boot records) (hback : s.ptr.backFromS3 = true) :
    ∃ t b, wake s = some t ∧ boot = some b ∧ b.records = records ∧ t.script = b.script ∧
      Locked reserve t records ∧ Captured t b ∧
      t.ptr.tableBase = s.ptr.tableBase ∧
      t.ptr.tableMemoryPageNumber = s.ptr.tableMemoryPageNumber := by
  have hsiz := sizes
  obtain ⟨b, hboot, rfl⟩ := h.asleep hback
  have hc := h.captured b hboot
  obtain ⟨box, hbox, hbuf, hboxL⟩ := h.box
  have hlen := hc.closed.length
  have hpag := h.pages
  have hfits := hc.fits
  obtain ⟨m, hm⟩ : ∃ m, m = writeBytes s.memory s.ptr.tableBase b.script := ⟨_, rfl⟩
  have hself : bytesAt m s.ptr.tableBase b.script.length = b.script := by
    rw [hm]
    exact bytesAt_writeBytes_self
  have hupd : updateLockBox s.dataBox 0 b.script =
      some { box with bytes := patch box.bytes 0 b.script } := by
    rw [hbox]
    refine updateLockBox_eq ?_ ?_
    · intro hnil
      rw [hnil] at hlen
      rw [List.length_nil] at hlen
      omega
    · omega
  have hsub : sub32 s.ptr.bootTimeScriptLength terminateSize =
      headerSize + b.records.flatten.length := by
    rw [hc.scriptLength, hlen]
    unfold sub32 u32
    omega
  have hres : BootScript.wake s = some { s with
      memory := m
      dataBox := some { box with bytes := patch box.bytes 0 b.script }
      ptr := { s.ptr with
        tableLength := headerSize + b.records.flatten.length
        backFromS3 := false } } := by
    unfold BootScript.wake restoreBootTimeDataFromLockBox
    rw [hc.bootTimeBox]
    dsimp only [Option.bind_eq_bind, Option.bind_some]
    rw [if_neg (by rw [hc.scriptLength]; exact lt_irrefl _)]
    unfold State.write
    dsimp only
    rw [← hm, hself, hupd, hsub, hc.bootTimeBox]
    rfl
  have hscr : bytesAt m s.ptr.tableBase (headerSize + b.records.flatten.length + terminateSize) =
      b.script := by rw [← hlen, hself]
  refine ⟨_, b, hres, hboot, rfl, hscr, ?_, ⟨hc.atRuntime, hc.bootTimeBox, hc.smmPrivateBox,
    hc.scriptLength, hc.closed, hc.wellFormed, hc.fits⟩, rfl, rfl⟩
  refine locked_of_closed rfl h.answers hc.wellFormed h.base h.pages ?_ h.locked h.inSmm ?_
    ⟨_, rfl, hbuf, ?_, ?_⟩
  · grind
  · have hclo := hc.closed
    rwa [← hscr] at hclo
  · grind [length_patch]
  · show (patch box.bytes 0 b.script).take (headerSize + b.records.flatten.length + terminateSize) =
      bytesAt m s.ptr.tableBase (headerSize + b.records.flatten.length + terminateSize)
    rw [hscr, ← hlen]
    unfold patch
    simp

lemma run_wake (hloc : s.ptr.smmLocked = true) (hinS : s.ptr.inSmm = true)
    (hback : s.ptr.backFromS3 = true) (hwake : wake s = some t) (hloc' : t.ptr.smmLocked = true)
    (hinS' : t.ptr.inSmm = true) (hawa : t.ptr.backFromS3 = false) (hop : op.opens = true) :
    op.run reserve s = op.run reserve t := by
  have hget : ∀ len, s3BootScriptGetEntryAddAddress reserve s len =
      s3BootScriptGetEntryAddAddress reserve t len := by
    intro len
    obtain ⟨s₁, hres, hresu⟩ := Option.bind_eq_some_iff.mp hwake
    rw [getEntryAddAddress_locked hloc' hinS' hawa]
    unfold s3BootScriptGetEntryAddAddress
    rw [if_pos hloc, hinS, hback, hres]
    cases hresu
    rfl
  cases op with
  | save request =>
    cases request with
    | error refusal => cases hop
    | ok e =>
      change saveEntry reserve s e = saveEntry reserve t e
      unfold saveEntry
      rw [hget]
  | move before position =>
    unfold Op.run s3BootScriptMoveLastOpcode
    rw [hget]
  | label before create position label =>
    cases label with
    | none => cases hop
    | some label =>
      grind [Op.opens, Op.run, s3BootScriptLabel]

/-! ### Steps -/

lemma Kept.call {status : EfiStatus} (h : Kept reserve s boot records) (hval : op.Valid)
    (hop : CarefulLocked s records op) (hrun : op.run reserve s = some (status, s')) :
    Kept reserve s' boot (op.effect s.ptr.tableBase s.ptr.tableMemoryPageNumber records) ∧
      Locked reserve s' (op.effect s.ptr.tableBase s.ptr.tableMemoryPageNumber records) ∧
      s'.ptr.tableBase = s.ptr.tableBase ∧
      s'.ptr.tableMemoryPageNumber = s.ptr.tableMemoryPageNumber := by
  cases hback : s.ptr.backFromS3 with
  | false =>
    obtain ⟨hfra, hloc⟩ := run_locked (h.awake hback) hval hop hrun
    refine ⟨hloc.kept (fun hnone => ?_) fun b hb => (h.captured b hb).of_frame hfra, hloc, ?_, ?_⟩
    · rw [hfra.bootTimeBox, hfra.smmPrivateBox, hfra.ptr]
      exact h.absent hnone
    · rw [hfra.ptr]
    · rw [hfra.ptr]
  | true =>
    obtain ⟨t, b, hwake, rfl, -, -, htab, hcap, hbase, hpag⟩ := h.wake hback
    have hsame : op.run reserve s = op.run reserve t :=
      run_wake h.locked h.inSmm hback hwake htab.locked htab.inSmm htab.awake (hop.opens hback)
    have hop' : CarefulLocked t records op := by
      refine ⟨fun _ => hop.opens hback, hop.save, ?_, ?_⟩
      · rw [hbase]
        exact hop.move
      · rw [hbase]
        exact hop.label
    rw [hsame] at hrun
    obtain ⟨hfra, hloc⟩ := run_locked htab hval hop' hrun
    rw [hbase, hpag] at hloc
    refine ⟨hloc.kept (fun hnone => by cases hnone) fun b' hb' => ?_, hloc, ?_, ?_⟩
    · cases hb'
      exact hcap.of_frame hfra
    · rw [hfra.ptr, ← hbase]
    · rw [hfra.ptr, ← hpag]

lemma Locked.writeBack {box : Box} {p : ScriptTablePrivateData} {m : ℕ → Byte}
    (h : Locked reserve s records) (hbox : s.dataBox = some box)
    (hm : m = writeBytes s.memory box.buffer box.bytes)
    (hptr : p = { s.ptr with
      bootTimeScriptLength := p.bootTimeScriptLength
      atRuntime := p.atRuntime }) :
    bytesAt m s.ptr.tableBase (s.ptr.tableLength + terminateSize) = s.script ∧
      ∀ s', s'.ptr = p → s'.memory = m → s'.dataBox = s.dataBox → s'.answers = s.answers →
        Locked reserve s' records := by
  obtain ⟨box', hbox', hsyn⟩ := h.synced h.locked
  obtain rfl := Option.some.inj (hbox.symm.trans hbox')
  have hfits := h.fits h.base
  rw [capacity_of_locked h.locked] at hfits
  have hscr : bytesAt m s.ptr.tableBase (s.ptr.tableLength + terminateSize) = s.script := by
    rw [hm, hsyn.buffer, bytesAt_writeBack (by rw [hsyn.length]; exact hfits), hsyn.bytes]
    rfl
  refine ⟨hscr, fun s' hptr' hmem hdata hans => ?_⟩
  have hscr' : s'.script = s.script := by
    unfold State.script
    rw [hmem, hptr', hptr]
    exact hscr
  refine locked_of_closed ?_ ?_ h.wellFormed ?_ ?_ ?_ ?_ ?_ ?_ ⟨box, hdata.trans hbox, ?_, ?_, ?_⟩
  · rw [hptr', hptr, h.awake]
  · rw [hans]
    exact h.answers
  · rw [hptr', hptr]
    exact h.base
  · rw [hptr', hptr]
    exact h.pages h.base
  · rw [hptr', hptr]
    exact hfits
  · rw [hptr', hptr, h.locked]
  · rw [hptr', hptr, h.inSmm]
  · rw [hscr']
    exact h.closed
  · rw [hptr', hptr, hsyn.buffer]
  · rw [hptr', hptr, hsyn.length]
  · rw [hscr', hptr', hptr]
    exact hsyn.bytes

lemma Kept.atRuntime (h : Kept reserve s boot records)
    (hrun : s3BootScriptSmmAtRuntimeCallBack s = some s') :
    Kept reserve s' (if s.ptr.atRuntime then boot else some ⟨s.script, records⟩) records := by
  unfold s3BootScriptSmmAtRuntimeCallBack at hrun
  cases hrunt : s.ptr.atRuntime with
  | true =>
    grind
  | false =>
    rw [hrunt, if_neg Bool.false_ne_true] at hrun
    have hnone : boot = none := by
      cases boot with
      | none => rfl
      | some b =>
        exact absurd (hrunt.symm.trans (h.captured b rfl).atRuntime) Bool.noConfusion
    have hawa : s.ptr.backFromS3 = false := by
      cases hback : s.ptr.backFromS3 with
      | false => rfl
      | true =>
        obtain ⟨b, hb, -⟩ := h.asleep hback
        rw [hnone] at hb
        cases hb
    have htab := h.awake hawa
    have hlen := htab.length h.base
    have hfits := htab.fits h.base
    have hpag := h.pages
    rw [capacity_of_locked h.locked] at hfits
    have hu32 : u32 (s.ptr.tableLength + terminateSize) = s.ptr.tableLength + terminateSize :=
      u32_of_lt (by omega)
    obtain ⟨box, hbox, -⟩ := h.box
    obtain ⟨m, hm⟩ : ∃ m, m = writeBytes s.memory box.buffer box.bytes := ⟨_, rfl⟩
    obtain ⟨-, hboot, hpri⟩ := h.absent hnone
    rw [hbox, hu32] at hrun
    dsimp only [Option.bind_eq_bind, Option.bind_some] at hrun
    unfold State.write at hrun
    dsimp only at hrun
    rw [← hm, hboot, hpri, if_neg (by simp [h.base])] at hrun
    cases hrun
    obtain ⟨hscr, hback⟩ := htab.writeBack (p := { s.ptr with
      bootTimeScriptLength := s.ptr.tableLength + terminateSize
      atRuntime := true
      backFromS3 := false }) hbox hm (by rw [← hawa])
    rw [if_neg Bool.false_ne_true]
    refine Locked.kept (hback _ rfl rfl rfl rfl) (fun hnot => by cases hnot) fun b hb => ?_
    cases hb
    refine ⟨rfl, ?_, ?_, ?_, htab.closed, htab.wellFormed, ?_⟩
    · simp [hscr]
    · show some _ = some _
      rw [← hlen]
    · simp [length_script]
    grind [length_script]

/-- The records that the next call acts on after a resume. -/
def afterResume (boot : Option Snapshot) (records : List (List Byte)) : List (List Byte) :=
  match boot with
  | some b => b.records
  | none => records

lemma Kept.resume (h : Kept reserve s boot records) :
    Kept reserve (resume s) boot (afterResume boot records) := by
  obtain ⟨box, hbox, hbuf, hboxL⟩ := h.box
  cases boot with
  | none =>
    have hawa : s.ptr.backFromS3 = false := by
      cases hback : s.ptr.backFromS3 with
      | false => rfl
      | true =>
        obtain ⟨b, hb, -⟩ := h.asleep hback
        cases hb
    obtain ⟨hrun, hboot, hpri⟩ := h.absent rfl
    obtain ⟨-, hback⟩ := (h.awake hawa).writeBack hbox rfl (p := s.ptr) rfl
    refine Locked.kept (hback _ ?_ ?_ rfl rfl) (fun _ => ⟨?_, hboot, hpri⟩) fun b hb => by cases hb
    · show s.smmPrivateBox.getD s.ptr = s.ptr
      rw [hpri]
      rfl
    · unfold BootScript.resume
      rw [hbox]
    · show (s.smmPrivateBox.getD s.ptr).atRuntime = false
      rw [hpri]
      exact hrun
  | some b =>
    have hc := h.captured b rfl
    have hptr : (BootScript.resume s).ptr = { s.ptr with
        tableLength := headerSize + b.records.flatten.length
        backFromS3 := true } := by
      unfold BootScript.resume
      dsimp only
      rw [hc.smmPrivateBox]
      rfl
    have hcap : Captured (BootScript.resume s) b := by
      refine ⟨?_, hc.bootTimeBox, ?_, ?_, hc.closed, hc.wellFormed, ?_⟩
      · rw [hptr]
        exact hc.atRuntime
      · rw [hptr]
        exact hc.smmPrivateBox
      · rw [hptr]
        exact hc.scriptLength
      · rw [hptr]
        exact hc.fits
    refine ⟨fun hawa => ?_, fun _ => ⟨b, rfl, rfl⟩, fun hnone => (by cases hnone), fun b' hb' => ?_,
      h.answers, ?_, ?_, ?_, ?_, box, hbox, ?_, ?_⟩
    · rw [hptr] at hawa
      cases hawa
    · cases hb'
      exact hcap
    · rw [hptr]
      exact h.base
    · rw [hptr]
      exact h.pages
    · rw [hptr]
      exact h.locked
    · rw [hptr]
      exact h.inSmm
    · rw [hptr]
      exact hbuf
    · rw [hptr]
      exact hboxL

end Edk2.BootScript
