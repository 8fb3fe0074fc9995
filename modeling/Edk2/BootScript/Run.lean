import Edk2.BootScript.Calls

/-!
# Runs of the library

The table holds the records that were saved, in the order that the calls give. Some calls break it:
a record of more than 255 bytes has a shorter length in its header than it has; if the last record
is moved behind itself, or if there is none to move, the size of what is moved is not a size; and a
label whose position is not in the table is left at its end. The number of pages is kept in 16 bits.
-/

namespace Edk2.BootScript

open Bytes LockBox

variable {reserve : ℕ} {s s' : State} {records : List (List Byte)}

inductive Op
  | save (request : Request)
  | move (before : Bool) (position : Option ℕ)
  | label (before createIfNotFound : Bool) (position : Option ℕ) (label : Option AsciiString)

/-- The call is one of the library. -/
def Op.Valid : Op → Prop
  | .save request => SaveRequest request
  | _ => True

def Op.run (reserve : ℕ) (s : State) : Op → Option (EfiStatus × State)
  | .save request => saveRequest reserve s request
  | .move before position => do
    let (status, s, _) ← s3BootScriptMoveLastOpcode reserve s before position
    some (status, s)
  | .label before createIfNotFound position l => do
    let (status, s, _) ← s3BootScriptLabel reserve s before createIfNotFound position l
    some (status, s)

/-- What a call should make of the records, if it succeeds. -/
def Op.apply (base : ℕ) (records : List (List Byte)) : Op → List (List Byte)
  | .save (.ok e) => records ++ [e.bytes]
  | .save (.error _) => records
  | .move before position => moveLast records base before (position.getD 0)
  | .label before _ position l => labelRecords records base before (position.getD 0) l

/-- The states of runs whose calls meet a condition, and the records that were saved. -/
inductive Reaches (reserve : ℕ) (P : State → List (List Byte) → Op → Prop) :
    State → List (List Byte) → Prop
  | initial (memory : ℕ → Byte) (answers : ℕ → Option ℕ)
      (hanswers : ∀ n b, answers n = some b → b ≠ 0) :
      Reaches reserve P (.initial memory answers) []
  | call {s s' : State} {records : List (List Byte)} {op : Op} {status : EfiStatus}
      (h : Reaches reserve P s records) (hvalid : op.Valid) (hop : P s records op)
      (hrun : op.run reserve s = some (status, s')) :
      Reaches reserve P s' (if status.isError then records else op.apply s.ptr.tableBase records)
  | readyToLock {s s' : State} {records : List (List Byte)} (h : Reaches reserve P s records)
      (hrun : s3BootScriptEventCallBack s = some s') : Reaches reserve P s' records
  | smmReadyToLock {s s' : State} {records : List (List Byte)} (h : Reaches reserve P s records)
      (hrun : s3BootScriptSmmEventCallBack s = some s') : Reaches reserve P s' records

/-- The table holds the records, and calls write in its pages only. -/
structure Correct (reserve : ℕ) (P : State → List (List Byte) → Op → Prop) (s : State)
    (records : List (List Byte)) : Prop where
  absent : s.ptr.tableBase = 0 → records = []
  header : s.ptr.tableBase ≠ 0 → bytesAt s.memory s.ptr.tableBase 3 = [0xAA, 0x00, 0x0D]
  contents : s.ptr.tableBase ≠ 0 →
    bytesAt s.memory (s.ptr.tableBase + headerSize) records.flatten.length = records.flatten
  length : s.ptr.tableBase ≠ 0 → s.ptr.tableLength = headerSize + records.flatten.length
  chain : ∀ r ∈ records, 3 ≤ r.length ∧ r.length < 256 ∧ r[2]? = some (UInt8.ofNat r.length)
  fits : s.ptr.tableBase ≠ 0 →
    s.ptr.tableLength + terminateSize ≤ s.ptr.tableMemoryPageNumber * 4096
  bounded : ∀ op status s', op.Valid → P s records op → op.run reserve s = some (status, s') →
    Bounded s s'
  boundedReady : ∀ s', s3BootScriptEventCallBack s = some s' → Bounded s s'

/-- A call that does not break the table. -/
def Careful (reserve : ℕ) (s : State) (records : List (List Byte)) : Op → Prop
  | .save (.ok e) => e.size < 256 ∧
    (Grows reserve s e.size → s.ptr.tableMemoryPageNumber + 2 < 2 ^ 16)
  | .save (.error _) => True
  | .move before position => Movable records s.ptr.tableBase before (position.getD 0)
  | .label _ createIfNotFound position label => ∀ l, label = some l → l.chars ≠ [] →
    ¬HasLabel records l → createIfNotFound = true →
    Creatable reserve s records (position.getD 0) l

/-! ### Steps -/

lemma Op.Valid.wellFormed {e : Entry} (h : (Op.save (.ok e)).Valid) (hsize : e.size < 256) :
    WellFormed e.bytes := by
  obtain ⟨hopC, hfie⟩ := SaveRequest.entry h
  grind [wellFormed_bytes]

lemma leaves_run {op : Op} {status : EfiStatus} (h : Live reserve s records)
    (hres : reserve + 2 < 2 ^ 16) (hval : op.Valid) (hop : Careful reserve s records op)
    (hrun : op.run reserve s = some (status, s')) :
    Leaves reserve s records (op.apply s.ptr.tableBase records) status s' := by
  cases op with
  | save request =>
    cases request with
    | error refusal =>
      cases hrun
      exact ⟨Bounded.refl s, rfl, fun _ => h, fun _ => h⟩
    | ok e =>
      obtain ⟨status', s'', hsave, hlea, -⟩ :=
        saveEntry_spec h hres hop.1 (hval.wellFormed hop.1) hop.2
      change saveEntry reserve s e = some (status, s') at hrun
      rw [hsave] at hrun
      cases hrun
      exact hlea
  | move before position =>
    obtain ⟨status', s'', position', hmove, hlea⟩ := move_spec h hres hop
    rw [Op.run, hmove] at hrun
    cases hrun
    exact hlea
  | label before createIfNotFound position label =>
    unfold Op.run at hrun
    obtain ⟨⟨status', s'', position'⟩, hlab, hresu⟩ := Option.bind_eq_some_iff.mp hrun
    cases hresu
    exact label_spec h hres hop hlab

lemma live_readyToLock (h : Live reserve s records)
    (hrun : s3BootScriptEventCallBack s = some s') :
    Live reserve s' records ∧ Bounded s s' := by
  unfold s3BootScriptEventCallBack at hrun
  cases hloc : s.ptr.smmLocked with
  | true =>
    rw [hloc, if_pos rfl] at hrun
    cases hrun
    exact ⟨h, Bounded.refl s⟩
  | false =>
    rw [hloc, if_neg Bool.false_ne_true] at hrun
    by_cases hbase : s.ptr.tableBase = 0
    · have hclo : s3BootScriptInternalCloseTable s = s := if_pos hbase
      grind
    · have hsiz := sizes
      have hlen := h.length hbase
      have hfits := h.fits hbase
      rw [capacity_of_not_locked hloc] at hfits
      have hall : s.ptr.tableLength + terminateSize ≤ s.ptr.tableMemoryPageNumber * 4096 :=
        hfits.trans (Nat.mul_le_mul_right _ (Nat.sub_le _ _))
      obtain ⟨m, hclo, hbou, hkeep, htot, hter⟩ :=
        closeTable_spec hbase (by omega) hall
      rw [hclo] at hrun
      dsimp only at hrun
      split_ifs at hrun with hass
      cases hrun
      refine ⟨⟨h.awake, h.answers, h.wellFormed, fun hzero => absurd hzero hbase, h.pages,
        fun _ => ?_, fun _ => ?_, h.length, fun _ => hall, fun _ => ⟨_, rfl, rfl, ?_, ?_,
        htot, hter⟩⟩, hbou⟩
      · refine Eq.trans (bytesAt_congr fun a hle hlt => hkeep a ?_) (h.header hbase)
        dsimp only at hle hlt
        omega
      · refine Eq.trans (bytesAt_congr fun a hle hlt => hkeep a ?_) (h.contents hbase)
        dsimp only at hle hlt
        omega
      · rw [length_bytesAt]
      · rw [take_bytesAt hall]

lemma live_smmReadyToLock (h : Live reserve s records)
    (hrun : s3BootScriptSmmEventCallBack s = some s') : Live reserve s' records := by
  obtain ⟨s₁, hrea, hres⟩ := Option.bind_eq_some_iff.mp hrun
  cases hres
  obtain ⟨hlive, -⟩ := live_readyToLock h hrea
  refine ⟨hlive.awake, hlive.answers, hlive.wellFormed, hlive.absent, hlive.pages, hlive.header,
    hlive.contents, hlive.length, hlive.fits, fun hloc => ?_⟩
  obtain ⟨box, hbox, hsyn⟩ := hlive.synced hloc
  exact ⟨box, hbox, hsyn.buffer, hsyn.length, hsyn.bytes, hsyn.total, hsyn.terminate⟩

/-! ### Runs -/

lemma Reaches.live (hres : reserve + 2 < 2 ^ 16)
    (h : Reaches reserve (Careful reserve) s records) : Live reserve s records := by
  induction h with
  | initial memory answers hans =>
    exact ⟨rfl, hans, fun r hr => (by cases hr), fun _ => ⟨rfl, rfl⟩,
      fun hbase => absurd rfl hbase, fun hbase => absurd rfl hbase, fun hbase => absurd rfl hbase,
      fun hbase => absurd rfl hbase, fun hbase => absurd rfl hbase, fun hloc => by cases hloc⟩
  | call _ hval hop hrun ih =>
    have hlea := leaves_run ih hres hval hop hrun
    split_ifs with hst
    · exact hlea.error hst
    · exact hlea.ok (by simpa using hst)
  | readyToLock _ hrun ih => exact (live_readyToLock ih hrun).1
  | smmReadyToLock _ hrun ih => exact live_smmReadyToLock ih hrun

/-- The table holds the records that were saved. -/
theorem table_correct_of_reaches (hreserve : reserve + 2 < 2 ^ 16)
    (h : Reaches reserve (Careful reserve) s records) :
    Correct reserve (Careful reserve) s records := by
  have hlive := h.live hreserve
  refine ⟨fun hbase => (hlive.absent hbase).1, hlive.header, hlive.contents, hlive.length, ?_, ?_,
    ?_, ?_⟩
  · intro r hr
    have hwf := hlive.wellFormed r hr
    have hle := hwf.le
    exact ⟨by omega, hwf.lt, hwf.length⟩
  · exact fun hbase => (hlive.fits hbase).trans (Nat.mul_le_mul_right _ (capacity_le reserve s))
  · intro op status s' hvalid hop hrun
    exact (leaves_run hlive hreserve hvalid hop hrun).bounded
  · exact fun s' hrun => (live_readyToLock hlive hrun).2

/-- Memory is allocated at one address. -/
def oneTable : ℕ → Option ℕ := fun _ => some 4096

/-- One record is saved. -/
theorem table_correct_of_reaches_stall :
    ∃ s, Reaches 2 (Careful 2) s [[0x07, 0x00, 0x0B, 0x05, 0, 0, 0, 0, 0, 0, 0]] ∧
      Correct 2 (Careful 2) s [[0x07, 0x00, 0x0B, 0x05, 0, 0, 0, 0, 0, 0, 0]] := by
  have hinitial : Reaches 2 (Careful 2) (.initial (fun _ => 0) oneTable) [] :=
    .initial _ _ fun n b hb => by cases hb; decide
  have hvalid : (Op.save (s3BootScriptSaveStall 5)).Valid := SaveRequest.stall 5
  have hcareful : Careful 2 (.initial (fun _ => 0) oneTable) [] (.save (s3BootScriptSaveStall 5)) :=
    ⟨by decide, fun hgrows => absurd rfl hgrows.2.1⟩
  have hsaved := hinitial.call hvalid hcareful rfl
  exact ⟨_, hsaved, table_correct_of_reaches (by decide) hsaved⟩

/-- A label is to be set at a position where there is no record. The call fails, but the record of
the label stays. -/
theorem not_table_correct_label :
    ¬∀ reserve s records, reserve + 2 < 2 ^ 16 → Reaches reserve (fun _ _ _ => True) s records →
      Correct reserve (fun _ _ _ => True) s records := by
  intro h
  have hinitial : Reaches 2 (fun _ _ _ => True) (.initial (fun _ => 0) oneTable) [] :=
    .initial _ _ fun n b hb => by cases hb; decide
  obtain ⟨op, hop⟩ : ∃ op, op = Op.label true true (some 5) (some ⟨[65], by decide⟩) := ⟨_, rfl⟩
  have hresult : ((op.run 2 (.initial (fun _ => 0) oneTable)).map fun r =>
      (r.1.isError, r.2.ptr.tableBase, r.2.ptr.tableLength)) = some (true, 4096, 22) := by
    rw [hop]
    decide
  obtain ⟨⟨status, s⟩, hrun, hs⟩ := Option.map_eq_some_iff.mp hresult
  simp only [Prod.mk.injEq] at hs
  have hlabel := hinitial.call (by rw [hop]; trivial) trivial hrun
  rw [if_pos hs.1] at hlabel
  have hlength := (h _ _ _ (by decide) hlabel).length (by rw [hs.2.1]; decide)
  rw [hs.2.2] at hlength
  exact absurd hlength (by decide)

end Edk2.BootScript

/-!
## Calls after `SmmReadyToLock`

In SMM the table stays where it is. What a call makes of its records then depends on the records,
the address of the table and its pages only.
-/

namespace Edk2.BootScript

open Bytes LockBox

variable {reserve : ℕ} {s s' s'' : State} {records : List (List Byte)} {e : Entry} {before : Bool}
  {position : Option ℕ} {label : AsciiString}

/-- A table that is locked, for a driver in SMM. -/
structure Locked (reserve : ℕ) (s : State) (records : List (List Byte)) : Prop extends
    Live reserve s records where
  locked : s.ptr.smmLocked = true
  inSmm : s.ptr.inSmm = true

/-- Nothing but the table, its length and its LockBox changes. -/
structure Frame (s s' : State) : Prop where
  ptr : s'.ptr = { s.ptr with tableLength := s'.ptr.tableLength }
  bootTimeBox : s'.bootTimeBox = s.bootTimeBox
  smmPrivateBox : s'.smmPrivateBox = s.smmPrivateBox

lemma Frame.refl (s : State) : Frame s s := ⟨rfl, rfl, rfl⟩

lemma Frame.of_eq (hptr : s'.ptr = s.ptr) (hboot : s'.bootTimeBox = s.bootTimeBox)
    (hpri : s'.smmPrivateBox = s.smmPrivateBox) : Frame s s' := by
  refine ⟨?_, hboot, hpri⟩
  rw [hptr]

lemma Frame.trans (h : Frame s s') (h' : Frame s' s'') : Frame s s'' := by
  refine ⟨?_, h'.bootTimeBox.trans h.bootTimeBox, h'.smmPrivateBox.trans h.smmPrivateBox⟩
  rw [h'.ptr, h.ptr]

lemma Locked.of_frame (h : Locked reserve s records) {records' : List (List Byte)}
    (hfra : Frame s s') (hlive : Live reserve s' records') : Locked reserve s' records' := by
  refine ⟨hlive, ?_, ?_⟩
  · rw [hfra.ptr]
    exact h.locked
  · rw [hfra.ptr]
    exact h.inSmm

lemma Locked.base (h : Locked reserve s records) : s.ptr.tableBase ≠ 0 := by
  intro hzero
  exact absurd (h.locked.symm.trans (h.absent hzero).2) Bool.noConfusion

lemma frame_tableLength (s : State) (n : ℕ) :
    Frame s { s with ptr := { s.ptr with tableLength := n } } := ⟨rfl, rfl, rfl⟩

lemma frame_closeTable (s : State) : Frame s (s3BootScriptInternalCloseTable s) := by
  unfold s3BootScriptInternalCloseTable
  split_ifs
  · exact .refl s
  · exact ⟨rfl, rfl, rfl⟩

lemma getEntryAddAddress_locked (hloc : s.ptr.smmLocked = true) (hinS : s.ptr.inSmm = true)
    (hawa : s.ptr.backFromS3 = false) (len : ℕ) :
    s3BootScriptGetEntryAddAddress reserve s len =
      some (s3BootScriptGetRuntimeEntryAddAddress s len) := by
  unfold s3BootScriptGetEntryAddAddress
  rw [if_pos hloc, hinS, hawa]
  rfl

/-- The pages have room for one more entry. -/
def HasRoom (pages : ℕ) (records : List (List Byte)) (len : ℕ) : Prop :=
  headerSize + records.flatten.length + len + terminateSize ≤ pages * 4096

instance {pages len : ℕ} : Decidable (HasRoom pages records len) :=
  inferInstanceAs (Decidable (_ ≤ _))

/-- The records after an entry was saved, if there was room for it. -/
def appendRecord (pages : ℕ) (records : List (List Byte)) (e : Entry) : List (List Byte) :=
  if HasRoom pages records e.size then records ++ [e.bytes] else records

lemma saveEntry_locked (h : Locked reserve s records) (hsize : e.size < 256)
    (hwf : WellFormed e.bytes) :
    ∃ status s', saveEntry reserve s e = some (status, s') ∧ Frame s s' ∧
      (status.isError = true ↔ ¬HasRoom s.ptr.tableMemoryPageNumber records e.size) ∧
      Locked reserve s' (appendRecord s.ptr.tableMemoryPageNumber records e) := by
  have hlen : e.length = e.size := Nat.mod_eq_of_lt hsize
  have htab := h.length h.base
  have hgot : Got reserve s records e.size (s3BootScriptGetRuntimeEntryAddAddress s e.size) :=
    got_runtime h.toLive h.locked h.inSmm
  have hiff : s.ptr.tableLength + e.size + terminateSize ≤ s.ptr.tableMemoryPageNumber * 4096 ↔
      HasRoom s.ptr.tableMemoryPageNumber records e.size := by
    unfold HasRoom
    rw [htab]
  unfold saveEntry appendRecord
  rw [hlen, getEntryAddAddress_locked h.locked h.inSmm h.awake]
  dsimp only [Option.bind_eq_bind, Option.bind_some]
  by_cases hroom : HasRoom s.ptr.tableMemoryPageNumber records e.size
  · rw [if_pos hroom]
    obtain ⟨s₁, hs₁⟩ : ∃ s₁, s₁ = s3BootScriptInternalCloseTable { s with
      ptr := { s.ptr with tableLength := u32 (s.ptr.tableLength + e.size) } } := ⟨_, rfl⟩
    have hget : s3BootScriptGetRuntimeEntryAddAddress s e.size =
        (some (s.ptr.tableBase + s.ptr.tableLength), s₁) := by
      rw [hs₁]
      exact if_pos (hiff.mpr hroom)
    have hopen : Frame s s₁ := by
      rw [hs₁]
      exact (frame_tableLength s _).trans (frame_closeTable _)
    rw [hget] at hgot ⊢
    obtain ⟨-, -, -, ⟨hnone, -⟩ | ⟨hsome, hope⟩⟩ := hgot
    · cases hnone
    · dsimp only at hsome hope ⊢
      rw [Option.some.inj hsome]
      rw [← length_bytes] at hope
      obtain ⟨s₂, hsync, hlive, -, hptr, hboot, hpri⟩ := hope.writeEntry hwf
      have hfra : Frame s s₂ := hopen.trans (.of_eq hptr hboot hpri)
      rw [hsync]
      exact ⟨_, _, rfl, hfra, iff_of_false (by decide) (not_not.mpr hroom), h.of_frame hfra hlive⟩
  · rw [if_neg hroom]
    have hget : s3BootScriptGetRuntimeEntryAddAddress s e.size = (none, s) :=
      if_neg fun hle => hroom (hiff.mp hle)
    rw [hget]
    exact ⟨_, _, rfl, .refl s, iff_of_true rfl hroom, h⟩

lemma Locked.opened (h : Locked reserve s records) : Opened reserve s records 0 := by
  have hgot : Got reserve s records 0 (s3BootScriptGetRuntimeEntryAddAddress s 0) :=
    got_runtime h.toLive h.locked h.inSmm
  rw [runtime_zero h.toLive h.locked] at hgot
  obtain ⟨-, -, -, ⟨hnone, -⟩ | ⟨-, hope⟩⟩ := hgot
  · cases hnone
  · exact hope

lemma moveLast_of_none {base pos : ℕ} (hpos : pos ≠ 0)
    (hnone : recordIndex records (base + headerSize) pos = none) :
    moveLast records base before pos = records := by
  grind [moveLast, List.getLast?_eq_none_iff.mp]

lemma move_locked (h : Locked reserve s records)
    (hmov : Movable records s.ptr.tableBase before (position.getD 0)) :
    ∃ status s' position', s3BootScriptMoveLastOpcode reserve s before position =
        some (status, s', position') ∧ Frame s s' ∧
      Locked reserve s' (moveLast records s.ptr.tableBase before (position.getD 0)) := by
  unfold s3BootScriptMoveLastOpcode
  rw [open_eq h.toLive h.base fun _ => h.inSmm]
  dsimp only [Option.bind_eq_bind, Option.bind_some]
  rw [if_neg (by simp)]
  obtain ⟨status, s', position', hmove, herr, hok⟩ := h.opened.moveLast hmov
  cases hst : status.isError with
  | true =>
    obtain ⟨rfl, hpos, hnone⟩ := herr hst
    rw [moveLast_of_none hpos hnone]
    exact ⟨_, _, _, hmove, .refl s', h⟩
  | false =>
    obtain ⟨-, hptr, hboot, hpri, hlive⟩ := hok hst
    have hfra : Frame s s' := .of_eq hptr hboot hpri
    exact ⟨_, _, _, hmove, hfra, h.of_frame hfra hlive⟩

/-! ### Labels -/

/-- The records after a label was created. If there is no room for it, nothing is moved. -/
def createLabel (base pages : ℕ) (records : List (List Byte)) (before : Bool) (pos : ℕ)
    (label : AsciiString) : List (List Byte) :=
  if HasRoom pages records (labelEntry label).size then
    moveLast (records ++ [(labelEntry label).bytes]) base before pos
  else records

lemma labelInternal_locked (h : Locked reserve s records) (hsize : (labelEntry label).size < 256)
    (hmov : Movable (records ++ [(labelEntry label).bytes]) s.ptr.tableBase before
      (position.getD 0)) :
    ∃ status s' position', s3BootScriptLabelInternal reserve s before position label =
        some (status, s', position') ∧ Frame s s' ∧
      Locked reserve s' (createLabel s.ptr.tableBase s.ptr.tableMemoryPageNumber records before
        (position.getD 0) label) := by
  obtain ⟨status₁, s₁, hsave, hfra₁, hiff, hloc⟩ :=
    saveEntry_locked h hsize (wellFormed_label hsize)
  unfold s3BootScriptLabelInternal createLabel
  unfold appendRecord at hloc
  rw [hsave]
  dsimp only [Option.bind_eq_bind, Option.bind_some]
  by_cases hroom : HasRoom s.ptr.tableMemoryPageNumber records (labelEntry label).size
  · rw [if_pos hroom] at hloc ⊢
    rw [if_neg (fun herr => hiff.mp herr hroom)]
    have hbase : s₁.ptr.tableBase = s.ptr.tableBase := by rw [hfra₁.ptr]
    rw [← hbase] at hmov ⊢
    obtain ⟨status, s', position', hmove, hfra, hres⟩ := move_locked hloc hmov
    exact ⟨_, _, _, hmove, hfra₁.trans hfra, hres⟩
  · rw [if_neg hroom] at hloc ⊢
    rw [if_pos (hiff.mpr hroom)]
    exact ⟨_, _, _, rfl, hfra₁, hloc⟩

/-- The records after a label was set. -/
def setLabelLocked (base pages : ℕ) (records : List (List Byte)) (before create : Bool) (pos : ℕ) :
    Option AsciiString → List (List Byte)
  | none => records
  | some label =>
    if label.chars = [] ∨ HasLabel records label ∨ create = false then records
    else createLabel base pages records before pos label

lemma label_locked {create : Bool} {label : Option AsciiString} {status : EfiStatus}
    {position' : Option ℕ} (h : Locked reserve s records)
    (hcar : ∀ l, label = some l → l.chars ≠ [] → ¬HasLabel records l → create = true →
      (labelEntry l).size < 256 ∧ Movable (records ++ [(labelEntry l).bytes]) s.ptr.tableBase
        before (position.getD 0))
    (hstep : s3BootScriptLabel reserve s before create position label =
      some (status, s', position')) :
    Frame s s' ∧ Locked reserve s' (setLabelLocked s.ptr.tableBase s.ptr.tableMemoryPageNumber
      records before create (position.getD 0) label) := by
  unfold s3BootScriptLabel at hstep
  unfold setLabelLocked
  cases label with
  | none =>
    cases hstep
    exact ⟨.refl s, h⟩
  | some label =>
    dsimp only at hstep ⊢
    by_cases hemp : label.chars = []
    · rw [if_pos hemp] at hstep
      cases hstep
      rw [if_pos (Or.inl hemp)]
      exact ⟨.refl s, h⟩
    · have ho := h.opened
      obtain ⟨found, hfnd, hiff⟩ : ∃ found, findLabel s.memory label
          (s.ptr.tableBase + s.ptr.tableLength) s.ptr.tableLength
          (s.ptr.tableBase + headerSize) = some found ∧ (found.isSome ↔ HasLabel records label) :=
        findLabel_eq ho.wellFormed ho.contents (by rw [ho.length]; omega) (by rw [ho.length]; omega)
      rw [if_neg hemp, open_eq h.toLive h.base fun _ => h.inSmm] at hstep
      dsimp only [Option.bind_eq_bind, Option.bind_some] at hstep
      rw [if_neg (by simp), lengthAt_header ho.header, if_neg (not_not.mpr (opCodeAt_header ho.header)),
        hfnd] at hstep
      dsimp only [Option.bind_some] at hstep
      cases found with
      | some address =>
        rw [if_pos (Or.inr (Or.inl (hiff.mp rfl)))]
        dsimp only at hstep
        split_ifs at hstep
        cases hstep
        exact ⟨.refl s, h⟩
      | none =>
        have hmis : ¬HasLabel records label := by simpa using hiff
        dsimp only at hstep
        cases create with
        | false =>
          rw [if_neg Bool.false_ne_true] at hstep
          cases hstep
          rw [if_pos (Or.inr (Or.inr rfl))]
          exact ⟨.refl s, h⟩
        | true =>
          rw [if_pos rfl] at hstep
          obtain ⟨hsize, hmov⟩ := hcar label rfl hemp hmis rfl
          obtain ⟨status', s₁, position₁, hint, hfra, hloc⟩ :=
            labelInternal_locked h hsize hmov
          grind

/-! ### Calls -/

/-- What a call makes of the records. -/
def Op.effect (base pages : ℕ) (records : List (List Byte)) : Op → List (List Byte)
  | .save (.ok e) => appendRecord pages records e
  | .save (.error _) => records
  | .move before position => moveLast records base before (position.getD 0)
  | .label before create position l =>
    setLabelLocked base pages records before create (position.getD 0) l

/-- The call gets as far as the table. -/
def Op.opens : Op → Bool
  | .save (.ok _) => true
  | .save (.error _) => false
  | .move _ _ => true
  | .label _ _ _ none => false
  | .label _ _ _ (some l) => l.chars ≠ []

/-- A call that does not break the table. After a resume it must get as far as the table. -/
structure CarefulLocked (s : State) (records : List (List Byte)) (op : Op) : Prop where
  opens : s.ptr.backFromS3 = true → op.opens = true
  save : ∀ e, op = .save (.ok e) → e.size < 256
  move : ∀ before position, op = .move before position →
    Movable records s.ptr.tableBase before (position.getD 0)
  label : ∀ before position l, op = .label before true position (some l) → l.chars ≠ [] →
    ¬HasLabel records l → (labelEntry l).size < 256 ∧
      Movable (records ++ [(labelEntry l).bytes]) s.ptr.tableBase before (position.getD 0)

lemma run_locked {op : Op} {status : EfiStatus} (h : Locked reserve s records)
    (hval : op.Valid) (hop : CarefulLocked s records op)
    (hrun : op.run reserve s = some (status, s')) :
    Frame s s' ∧ Locked reserve s'
      (op.effect s.ptr.tableBase s.ptr.tableMemoryPageNumber records) := by
  cases op with
  | save request =>
    cases request with
    | error refusal =>
      cases hrun
      exact ⟨.refl s, h⟩
    | ok e =>
      obtain ⟨status', s'', hsave, hfra, -, hloc⟩ :=
        saveEntry_locked h (hop.save e rfl) (hval.wellFormed (hop.save e rfl))
      change saveEntry reserve s e = some (status, s') at hrun
      rw [hsave] at hrun
      cases hrun
      exact ⟨hfra, hloc⟩
  | move before position =>
    obtain ⟨status', s'', position', hmove, hfra, hloc⟩ :=
      move_locked h (hop.move before position rfl)
    rw [Op.run, hmove] at hrun
    cases hrun
    exact ⟨hfra, hloc⟩
  | label before create position label =>
    unfold Op.run at hrun
    obtain ⟨⟨status', s'', position'⟩, hlab, hres⟩ := Option.bind_eq_some_iff.mp hrun
    cases hres
    refine label_locked h (fun l hl hne hmis hcre => ?_) hlab
    subst hl hcre
    exact hop.label before position l rfl hne hmis

end Edk2.BootScript
