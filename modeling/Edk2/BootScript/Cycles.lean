import Edk2.BootScript.Resume

/-!
# S3 cycles

Calls, the runtime transition and resumes in any order. A resume restores the private data as they
were at the transition, so that the next call finds the script of the boot time; two cycles with the
same calls execute the same script.
-/

namespace Edk2.BootScript

open Bytes LockBox

variable {reserve : ℕ} {s s' s₁ s₂ : State} {records records' records₁ records₂ : List (List Byte)}
  {op : Op} {ops : List Op} {boot : Option Snapshot}

/-- The runtime transition has not happened. -/
def BootTime (s : State) : Prop :=
  s.ptr.atRuntime = false ∧ s.bootTimeBox = none ∧ s.smmPrivateBox = none

lemma BootTime.createTable (h : BootTime s) : BootTime (createTable reserve s).2 := by
  unfold BootScript.createTable
  split_ifs
  · cases s.answers 0 <;> exact h
  · exact h

lemma BootTime.growTable (h : BootTime s) (len : ℕ) : BootTime (growTable reserve s len).2 := by
  unfold BootScript.growTable
  dsimp only
  split_ifs
  · cases s.answers 0 <;> exact h
  · exact h

lemma BootTime.closeTable (h : BootTime s) : BootTime (s3BootScriptInternalCloseTable s) := by
  unfold s3BootScriptInternalCloseTable
  split_ifs <;> exact h

lemma BootTime.getBootTime (h : BootTime s) (len : ℕ) :
    BootTime (s3BootScriptGetBootTimeEntryAddAddress reserve s len).2 := by
  unfold s3BootScriptGetBootTimeEntryAddAddress
  dsimp only
  split_ifs
  · exact h.createTable
  · exact h.createTable.growTable len
  · exact h.createTable.growTable len

lemma BootTime.getRuntime (h : BootTime s) (len : ℕ) :
    BootTime (s3BootScriptGetRuntimeEntryAddAddress s len).2 := by
  unfold s3BootScriptGetRuntimeEntryAddAddress
  split_ifs
  · exact BootTime.closeTable h
  · exact h

lemma BootTime.getEntry {r : Option ℕ × State} {len : ℕ} (h : BootTime s)
    (hget : s3BootScriptGetEntryAddAddress reserve s len = some r) : BootTime r.2 := by
  unfold s3BootScriptGetEntryAddAddress restoreBootTimeDataFromLockBox at hget
  rw [h.2.1] at hget
  split_ifs at hget
  · cases hget
    exact h
  · cases hget
  · cases hget
    exact h.getRuntime len
  · cases hget
    exact h.getBootTime len

lemma BootTime.sync {script : ℕ} (h : BootTime s) (hsync : syncBootScript s script = some s') :
    BootTime s' := by
  unfold syncBootScript at hsync
  split_ifs at hsync
  · cases hsync
    exact h
  · obtain ⟨box, -, hrest⟩ := Option.bind_eq_some_iff.mp hsync
    obtain ⟨box', -, hres⟩ := Option.bind_eq_some_iff.mp hrest
    cases hres
    exact h

lemma BootTime.saveEntry {e : Entry} {status : EfiStatus} (h : BootTime s)
    (hsave : saveEntry reserve s e = some (status, s')) : BootTime s' := by
  obtain ⟨⟨script, s₁⟩, hget, hrest⟩ := Option.bind_eq_some_iff.mp hsave
  have hs₁ := h.getEntry hget
  cases script with
  | none =>
    cases hrest
    exact hs₁
  | some script =>
    obtain ⟨s₂, hsync, hres⟩ := Option.bind_eq_some_iff.mp hrest
    cases hres
    exact BootTime.sync (s := s₁.write script e.bytes) hs₁ hsync

lemma BootTime.moveLastOpcode {before : Bool} {position position' : Option ℕ} {status : EfiStatus}
    (h : BootTime s) (hmove : moveLastOpcode s before position = some (status, s', position')) :
    BootTime s' := by
  obtain ⟨⟨lastOpcode, valid⟩, -, hrest⟩ := Option.bind_eq_some_iff.mp hmove
  dsimp only at hrest
  split_ifs at hrest
  · cases hrest
    exact h
  · obtain ⟨s₂, hsync, hres⟩ := Option.bind_eq_some_iff.mp hrest
    cases hres
    refine BootTime.sync ?_ hsync
    unfold s3BootScriptCalculateInsertAddress
    dsimp only
    split_ifs <;> exact h

lemma BootTime.move {before : Bool} {position position' : Option ℕ} {status : EfiStatus}
    (h : BootTime s)
    (hmove : s3BootScriptMoveLastOpcode reserve s before position = some (status, s', position')) :
    BootTime s' := by
  obtain ⟨⟨script, s₁⟩, hget, hrest⟩ := Option.bind_eq_some_iff.mp hmove
  dsimp only at hrest
  split_ifs at hrest
  · cases hrest
    exact h.getEntry hget
  · exact (h.getEntry hget).moveLastOpcode hrest

lemma BootTime.label {before create : Bool} {position position' : Option ℕ}
    {label : Option AsciiString} {status : EfiStatus} (h : BootTime s)
    (hlab : s3BootScriptLabel reserve s before create position label =
      some (status, s', position')) : BootTime s' := by
  unfold s3BootScriptLabel at hlab
  cases label with
  | none =>
    cases hlab
    exact h
  | some label =>
    dsimp only at hlab
    by_cases hemp : label.chars = []
    · rw [if_pos hemp] at hlab
      cases hlab
      exact h
    · rw [if_neg hemp] at hlab
      obtain ⟨⟨script, s₁⟩, hget, hrest⟩ := Option.bind_eq_some_iff.mp hlab
      have hs₁ := h.getEntry hget
      dsimp only at hrest hs₁
      by_cases hscr : script = none
      · rw [if_pos hscr] at hrest
        cases hrest
        exact hs₁
      rw [if_neg hscr] at hrest
      by_cases hhdr : opCodeAt s₁.memory s₁.ptr.tableBase ≠ 0xAA
      · rw [if_pos hhdr] at hrest
        cases hrest
        exact hs₁
      rw [if_neg hhdr] at hrest
      obtain ⟨found, -, hrest⟩ := Option.bind_eq_some_iff.mp hrest
      cases found with
      | some address =>
        grind
      | none =>
        dsimp only at hrest
        cases create with
        | false =>
          cases hrest
          exact hs₁
        | true =>
          obtain ⟨⟨status₂, s₂⟩, hsave, hrest⟩ := Option.bind_eq_some_iff.mp hrest
          have hs₂ := hs₁.saveEntry hsave
          dsimp only at hrest
          split_ifs at hrest
          · cases hrest
            exact hs₂
          · exact hs₂.move hrest

lemma BootTime.run {status : EfiStatus} (h : BootTime s)
    (hrun : op.run reserve s = some (status, s')) : BootTime s' := by
  cases op with
  | save request =>
    cases request with
    | error refusal =>
      cases hrun
      exact h
    | ok e => exact h.saveEntry hrun
  | move before position =>
    obtain ⟨⟨status', s'', position'⟩, hmove, hres⟩ := Option.bind_eq_some_iff.mp hrun
    cases hres
    exact h.move hmove
  | label before create position label =>
    obtain ⟨⟨status', s'', position'⟩, hlab, hres⟩ := Option.bind_eq_some_iff.mp hrun
    cases hres
    exact h.label hlab

lemma BootTime.readyToLock (h : BootTime s) (hrun : s3BootScriptEventCallBack s = some s') :
    BootTime s' := by
  unfold s3BootScriptEventCallBack at hrun
  dsimp only at hrun
  split_ifs at hrun
  · cases hrun
    exact h
  · cases hrun
    exact h.closeTable

lemma Reaches.bootTime {P : State → List (List Byte) → Op → Prop} (h : Reaches reserve P s records) :
    BootTime s := by
  induction h with
  | initial memory answers hans => exact ⟨rfl, rfl, rfl⟩
  | call _ _ _ hrun ih => exact ih.run hrun
  | readyToLock _ hrun ih => exact ih.readyToLock hrun
  | smmReadyToLock _ hrun ih =>
    obtain ⟨s₁, hrea, hres⟩ := Option.bind_eq_some_iff.mp hrun
    have hs₁ := ih.readyToLock hrea
    cases hres
    exact hs₁

/-- The states of runs whose calls meet a condition, what the runtime transition has captured, and
the records that the next call acts on. -/
inductive Resumes (reserve : ℕ) (P : State → List (List Byte) → Op → Prop) :
    State → Option Snapshot → List (List Byte) → Prop
  | start {s : State} {records : List (List Byte)} (h : Reaches reserve (Careful reserve) s records)
      (hlocked : s.ptr.smmLocked = true) (hinSmm : s.ptr.inSmm = true) :
      Resumes reserve P s none records
  | call {s s' : State} {boot : Option Snapshot} {records : List (List Byte)} {op : Op}
      {status : EfiStatus} (h : Resumes reserve P s boot records) (hvalid : op.Valid)
      (hop : P s records op) (hrun : op.run reserve s = some (status, s')) :
      Resumes reserve P s' boot (op.effect s.ptr.tableBase s.ptr.tableMemoryPageNumber records)
  | atRuntime {s s' : State} {boot : Option Snapshot} {records : List (List Byte)}
      (h : Resumes reserve P s boot records)
      (hrun : s3BootScriptSmmAtRuntimeCallBack s = some s') :
      Resumes reserve P s' (if s.ptr.atRuntime then boot else some ⟨s.script, records⟩) records
  | resume {s : State} {boot : Option Snapshot} {records : List (List Byte)}
      (h : Resumes reserve P s boot records) :
      Resumes reserve P (resume s) boot (afterResume boot records)

lemma Resumes.kept (hres : reserve + 2 < 2 ^ 16)
    (h : Resumes reserve CarefulLocked s boot records) : Kept reserve s boot records := by
  induction h with
  | start h hloc hinS =>
    have htab : Locked reserve _ _ := ⟨h.live hres, hloc, hinS⟩
    exact htab.kept (fun _ => h.bootTime) fun b hb => by cases hb
  | call _ hval hop hrun ih => exact (ih.call hval hop hrun).1
  | atRuntime _ hrun ih => exact ih.atRuntime hrun
  | resume _ ih => exact ih.resume

/-- The calls of a cycle. -/
inductive Runs (reserve : ℕ) (P : State → List (List Byte) → Op → Prop) :
    State → List (List Byte) → List Op → State → List (List Byte) → Prop
  | nil (s : State) (records : List (List Byte)) : Runs reserve P s records [] s records
  | cons {s s₁ s' : State} {records records' : List (List Byte)} {op : Op} {ops : List Op}
      {status : EfiStatus} (hvalid : op.Valid) (hop : P s records op)
      (hrun : op.run reserve s = some (status, s₁))
      (h : Runs reserve P s₁ (op.effect s.ptr.tableBase s.ptr.tableMemoryPageNumber records) ops s'
        records') :
      Runs reserve P s records (op :: ops) s' records'

lemma Kept.runs (h : Kept reserve s boot records)
    (hruns : Runs reserve CarefulLocked s records ops s' records') :
    Kept reserve s' boot records' ∧ s'.ptr.tableBase = s.ptr.tableBase ∧
      s'.ptr.tableMemoryPageNumber = s.ptr.tableMemoryPageNumber ∧
      records' = ops.foldl (Op.effect s.ptr.tableBase s.ptr.tableMemoryPageNumber) records ∧
      (s.ptr.backFromS3 = false ∨ ops ≠ [] → Locked reserve s' records') := by
  induction hruns with
  | nil s records =>
    exact ⟨h, rfl, rfl, rfl, fun hor => h.awake (hor.resolve_right fun hne => hne rfl)⟩
  | cons hval hop hrun _ ih =>
    obtain ⟨hkept, hloc, hbase, hpag⟩ := h.call hval hop hrun
    obtain ⟨hkep', hbas', hpag', hrec, hawa⟩ := ih hkept
    refine ⟨hkep', hbas'.trans hbase, hpag'.trans hpag, ?_, fun _ =>
      hawa (Or.inl hloc.awake)⟩
    rw [hrec, hbase, hpag]
    rfl

lemma Locked.replayed (h : Locked reserve s records) : replayed s = some records := by
  have hsiz := sizes
  obtain ⟨box, hbox, -⟩ := h.synced h.locked
  obtain ⟨m, hm⟩ : ∃ m, m = writeBytes s.memory box.buffer box.bytes := ⟨_, rfl⟩
  obtain ⟨-, hback⟩ := h.writeBack hbox hm (p := s.ptr) rfl
  have htab : Locked reserve { s with memory := m } records := hback _ rfl rfl rfl rfl
  have hlen : s.ptr.tableLength = headerSize + records.flatten.length := h.length h.base
  have hpag := h.pages h.base
  have hfits := htab.fits h.base
  rw [capacity_of_locked htab.locked] at hfits
  dsimp only at hfits
  obtain ⟨box', -, hsyn⟩ := htab.synced htab.locked
  have hmem : (resume s).memory = m := by
    unfold resume
    rw [hm, hbox]
  have hhdr : bytesAt m s.ptr.tableBase 3 = [0xAA, 0x00, 0x0D] := htab.header h.base
  have htot : fieldValue (bytesAt m (s.ptr.tableBase + 5) 4) =
      s.ptr.tableLength + terminateSize := by
    have hfie : bytesAt m (s.ptr.tableBase + 5) 4 =
      field 4 (s.ptr.tableLength + terminateSize) := hsyn.total
    rw [hfie, fieldValue_field]
    omega
  have hter := hsyn.terminate
  dsimp only at hter
  unfold BootScript.replayed s3BootScriptExecute
  rw [hmem, opCodeAt_header hhdr, if_neg (by simp [h.base]), lengthAt_header hhdr]
  dsimp only
  rw [htot]
  refine executeLoop_eq h.wellFormed (htab.contents h.base) (by omega) (by omega) ?_
  rw [Nat.add_assoc, ← hlen]
  exact hter

lemma replayed_resume (h : Kept reserve s boot records) : replayed (resume s) = replayed s := by
  obtain ⟨box, hbox, -⟩ := h.box
  have hmem : (resume (resume s)).memory = (resume s).memory := by
    unfold resume
    dsimp only
    rw [hbox]
    dsimp only
    exact writeBytes_eq_self bytesAt_writeBytes_self
  have hbase : (resume s).ptr.tableBase = s.ptr.tableBase := by
    unfold resume
    dsimp only
    cases boot with
    | none => rw [(h.absent rfl).2.2, Option.getD_none]
    | some b => rw [(h.captured b rfl).smmPrivateBox, Option.getD_some]
  unfold replayed
  rw [hmem, hbase]

/-- The LockBox agrees with the table, which ends in a terminate record. -/
structure Agrees (s : State) (box : Box) : Prop where
  bytes : box.bytes.take (s.ptr.tableLength + terminateSize) =
    bytesAt s.memory s.ptr.tableBase (s.ptr.tableLength + terminateSize)
  header : fieldValue ((box.bytes.drop 5).take 4) = s.ptr.tableLength + terminateSize
  terminate : (box.bytes.drop s.ptr.tableLength).take terminateSize = scriptTerminate

lemma Locked.agrees (h : Locked reserve s records) : ∃ box, s.dataBox = some box ∧ Agrees s box := by
  have hsiz := sizes
  obtain ⟨box, hbox, hsyn⟩ := h.synced h.locked
  have hlen := h.length h.base
  have hpag := h.pages h.base
  have hfits := h.fits h.base
  rw [capacity_of_locked h.locked] at hfits
  have hpie : ∀ {offset size : ℕ}, offset + size ≤ s.ptr.tableLength + terminateSize →
      (box.bytes.drop offset).take size = bytesAt s.memory (s.ptr.tableBase + offset) size := by
    intro offset size hle
    rw [← take_drop_script hle, State.script, ← hsyn.bytes, List.drop_take, List.take_take,
      Nat.min_eq_left (by omega)]
  refine ⟨box, hbox, hsyn.bytes, ?_, ?_⟩
  · rw [hpie (by omega), hsyn.total, fieldValue_field]
    omega
  · rw [hpie le_rfl, hsyn.terminate]

/-- The LockBox is kept in step with the table, and each cycle starts with the script of the boot
time. -/
structure Protected (reserve : ℕ) (P : State → List (List Byte) → Op → Prop) (s : State)
    (boot : Option Snapshot) (records : List (List Byte)) : Prop where
  agrees : ∀ op status s', op.Valid → P s records op → op.run reserve s = some (status, s') →
    ∃ box, s'.dataBox = some box ∧ Agrees s' box
  bootTime : ∀ b, boot = some b → ∃ t : State, t.script = b.script ∧ t.ptr.backFromS3 = false ∧
    ∀ op : Op, op.opens = true → op.run reserve (resume s) = op.run reserve t
  cycles : ∀ b, boot = some b → records = b.records → ∀ ops s₁ records₁ s₂ records₂,
    Runs reserve P s records ops s₁ records₁ →
    Runs reserve P (resume s₁) b.records ops s₂ records₂ → replayed s₁ = replayed s₂

/-- The script is protected after `SmmReadyToLock`. -/
theorem protected_of_resumes (hreserve : reserve + 2 < 2 ^ 16)
    (h : Resumes reserve CarefulLocked s boot records) :
    Protected reserve CarefulLocked s boot records := by
  have hkept := h.kept hreserve
  refine ⟨?_, ?_, ?_⟩
  · intro op status s' hvalid hop hrun
    exact (hkept.call hvalid hop hrun).2.1.agrees
  · rintro b rfl
    have hresumed := hkept.resume
    have hback : (resume s).ptr.backFromS3 = true := by
      simp [(hkept.captured b rfl).smmPrivateBox, resume]
    obtain ⟨t, b', hwake, hb', -, hscript, htable, -⟩ := hresumed.wake hback
    cases hb'
    exact ⟨t, hscript, htable.awake, fun op hop => run_wake hresumed.locked hresumed.inSmm hback
      hwake htable.locked htable.inSmm htable.awake hop⟩
  · rintro b rfl rfl ops s₁ records₁ s₂ records₂ hruns₁ hruns₂
    obtain ⟨hkept₁, hbase₁, hpages₁, hrecords₁, hawake₁⟩ := hkept.runs hruns₁
    have hresumed := hkept₁.resume
    obtain ⟨-, -, -, hrecords₂, hawake₂⟩ := hresumed.runs hruns₂
    cases ops with
    | nil =>
      cases hruns₁
      cases hruns₂
      exact (replayed_resume hkept).symm
    | cons op ops =>
      have hptr : (resume s₁).ptr.tableBase = s.ptr.tableBase ∧
          (resume s₁).ptr.tableMemoryPageNumber = s.ptr.tableMemoryPageNumber := by
        unfold resume
        dsimp only
        rw [(hkept₁.captured b rfl).smmPrivateBox]
        exact ⟨hbase₁, hpages₁⟩
      rw [(hawake₁ (Or.inr (by simp))).replayed, (hawake₂ (Or.inr (by simp))).replayed, hrecords₁,
        hrecords₂, hptr.1, hptr.2]
      rfl

/-- A stall is saved, and the table is locked. -/
def lockedStall : Option State := do
  let (_, s) ← saveRequest 0 (.initial (fun _ => 0) oneTable) (s3BootScriptSaveStall 5)
  s3BootScriptSmmEventCallBack s

lemma reaches_lockedStall : ∃ s, lockedStall = some s ∧ s.ptr.smmLocked = true ∧
    s.ptr.inSmm = true ∧
    Reaches 0 (Careful 0) s [[0x07, 0x00, 0x0B, 0x05, 0, 0, 0, 0, 0, 0, 0]] := by
  have hini : Reaches 0 (Careful 0) (.initial (fun _ => 0) oneTable) [] :=
    .initial _ _ fun n b hb => by cases hb; decide
  have hval : (Op.save (s3BootScriptSaveStall 5)).Valid := SaveRequest.stall 5
  have hcar : Careful 0 (.initial (fun _ => 0) oneTable) [] (.save (s3BootScriptSaveStall 5)) :=
    ⟨by decide, fun hgro => absurd rfl hgro.2.1⟩
  have hsav := hini.call hval hcar rfl
  exact ⟨_, rfl, rfl, rfl, hsav.smmReadyToLock rfl⟩

/-- The system is back from S3 after the runtime transition. -/
theorem protected_of_resumes_stall :
    ∃ s b, Resumes 0 CarefulLocked s (some b) [[0x07, 0x00, 0x0B, 0x05, 0, 0, 0, 0, 0, 0, 0]] ∧
      Protected 0 CarefulLocked s (some b) [[0x07, 0x00, 0x0B, 0x05, 0, 0, 0, 0, 0, 0, 0]] := by
  obtain ⟨s, hs, hlocked, hinSmm, hreaches⟩ := reaches_lockedStall
  have hstart : Resumes 0 CarefulLocked s none _ := .start hreaches hlocked hinSmm
  have hsome : (lockedStall.bind s3BootScriptSmmAtRuntimeCallBack).isSome := by decide
  rw [hs] at hsome
  obtain ⟨s', hruntime⟩ := Option.isSome_iff_exists.mp hsome
  have hresumed := (hstart.atRuntime hruntime).resume
  rw [hreaches.bootTime.1] at hresumed
  exact ⟨_, _, hresumed, protected_of_resumes (by decide) hresumed⟩

/-- A record of more than 255 bytes overwrites the terminate record. -/
theorem not_protected_longRecord :
    ¬∀ reserve s boot records, reserve + 2 < 2 ^ 16 →
      Resumes reserve (fun _ _ _ => True) s boot records →
      Protected reserve (fun _ _ _ => True) s boot records := by
  intro h
  obtain ⟨s, hs, hlocked, hinSmm, hreaches⟩ := reaches_lockedStall
  have hvalid : (Op.save (s3BootScriptSaveInformation 300 fun _ => 0)).Valid :=
    SaveRequest.information 300 fun _ => 0
  obtain ⟨op, hop⟩ : ∃ op, op = Op.save (s3BootScriptSaveInformation 300 fun _ => 0) := ⟨_, rfl⟩
  have hresult : ((lockedStall.bind (op.run 0)).map fun r =>
      (r.2.ptr.tableBase, r.2.ptr.tableLength, r.2.memory 4171)) = some (4096, 75, 0) := by
    rw [hop]
    decide +kernel
  rw [hs] at hresult
  obtain ⟨⟨status, s'⟩, hrun, hs'⟩ := Option.map_eq_some_iff.mp hresult
  simp only [Prod.mk.injEq] at hs'
  obtain ⟨hbase, hlength, hbyte⟩ := hs'
  obtain ⟨box, -, hagrees⟩ := (h 0 s none _ (by decide) (.start hreaches hlocked hinSmm)).agrees op
    status s' (by rw [hop]; exact hvalid) trivial hrun
  -- the first byte of the terminate record is not where it should be
  have hfirst : bytesAt s'.memory (4096 + 75) 3 = scriptTerminate := by
    have hbytes := congrArg (List.drop 75) hagrees.bytes
    rw [hlength, hbase, drop_bytesAt (by omega), List.drop_take] at hbytes
    rw [← hagrees.terminate, hlength]
    exact hbytes.symm
  have hbyte' := congrArg List.head? hfirst
  have hhead : (bytesAt s'.memory (4096 + 75) 3).head? = some (s'.memory 4171) := rfl
  rw [hhead, hbyte] at hbyte'
  exact absurd hbyte' (by decide)

end Edk2.BootScript
