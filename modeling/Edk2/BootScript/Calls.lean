import Edk2.BootScript.Steps

/-!
# The calls of the library

Each call appends a record, moves the last one or looks for a label; if it fails, the records are
as they were.
-/

namespace Edk2.BootScript

open Bytes LockBox

variable {reserve : ℕ} {s s' : State} {records : List (List Byte)} {e : Entry} {before : Bool}
  {position : Option ℕ} {label : AsciiString} {status : EfiStatus}

lemma wellFormed_bytes (hsize : e.size < 256) (hfie : 4 ≤ e.fields.length)
    (hopC : e.opCode < 0xFF)
    (hlab : e.opCode = 0xFE → ∃ label : AsciiString, e = labelEntry label) :
    WellFormed e.bytes := by
  have hlen : e.length = e.size := Nat.mod_eq_of_lt hsize
  have hsiz : e.size = 3 + e.fields.length + e.payload.length := rfl
  have hhigh : e.opCode / 256 = 0 := Nat.div_eq_of_lt (by omega)
  have htake : e.bytes.take 2 = [UInt8.ofNat e.opCode, 0x00] := by
    simp [Entry.bytes, field, hhigh]
  have hcode : ∀ n < 256, UInt8.ofNat e.opCode = UInt8.ofNat n → e.opCode = n := by
    grind [UInt8.toNat_ofNat']
  refine ⟨?_, ?_, ?_, ?_, ?_⟩
  · rw [length_bytes]
    simp [Entry.bytes, field, hlen]
  · rw [length_bytes]
    exact hsize
  · rw [length_bytes]
    omega
  · rw [htake]
    intro heq
    have := hcode 0xFF (by decide) (List.cons.inj heq).1
    omega
  · rw [htake]
    intro heq
    obtain ⟨label, rfl⟩ := hlab (hcode 0xFE (by decide) (List.cons.inj heq).1)
    exact ⟨label, rfl⟩

lemma SaveRequest.entry (h : SaveRequest (.ok e)) : e.opCode ≤ 0x10 ∧ 4 ≤ e.fields.length := by
  generalize hreq : (Except.ok e : Request) = request at h
  cases h
  case smbusExecute a o l b =>
    unfold s3BootScriptSaveSmbusExecute at hreq
    cases hche : checkParameters a o (l.getD 0) b.isSome with
    | error status =>
      rw [hche] at hreq
      cases hreq
    | ok length =>
      rw [hche] at hreq
      cases hreq
      simp
  case pciCfgWrite | pciCfgReadWrite | pciCfg2Write | pciCfg2ReadWrite | pciPoll | pci2Poll =>
    simp only [s3BootScriptSavePciCfgWrite, s3BootScriptSavePciCfgReadWrite,
      s3BootScriptSavePciCfg2Write, s3BootScriptSavePciCfg2ReadWrite, s3BootScriptSavePciPoll,
      s3BootScriptSavePci2Poll, pciRequest] at hreq
    split_ifs at hreq
    cases hreq
    simp
  all_goals
    cases hreq
    simp

/-- What a call leaves behind. -/
structure Leaves (reserve : ℕ) (s : State) (records records' : List (List Byte))
    (status : EfiStatus) (s' : State) : Prop where
  bounded : Bounded s s'
  locked : s'.ptr.smmLocked = s.ptr.smmLocked
  ok : status.isError = false → Live reserve s' records'
  error : status.isError = true → Live reserve s' records

lemma saveEntry_spec (h : Live reserve s records) (hres : reserve + 2 < 2 ^ 16)
    (hsize : e.size < 256) (hwf : WellFormed e.bytes)
    (hgro : Grows reserve s e.size → s.ptr.tableMemoryPageNumber + 2 < 2 ^ 16) :
    ∃ status s', saveEntry reserve s e = some (status, s') ∧
      Leaves reserve s records (records ++ [e.bytes]) status s' ∧
      (s.ptr.tableBase ≠ 0 → ¬Grows reserve s e.size → s'.ptr.tableBase = s.ptr.tableBase ∧
        s'.ptr.tableMemoryPageNumber = s.ptr.tableMemoryPageNumber) ∧
      (status.isError = false → s'.ptr.tableBase ≠ 0 ∧
        (s'.ptr.smmLocked = true → s'.ptr.inSmm = true)) := by
  have hlen : e.length = e.size := Nat.mod_eq_of_lt hsize
  obtain ⟨⟨script, s₁⟩, hget, hbou, hloc, hkeep, hcas⟩ :=
    got_getEntryAddAddress h hres hsize hgro
  unfold saveEntry
  rw [hlen, hget]
  dsimp only [Option.bind_eq_bind, Option.bind_some]
  rcases hcas with ⟨hnone, hlive⟩ | ⟨hsome, hope⟩
  · dsimp only at hnone
    subst hnone
    exact ⟨_, _, rfl, ⟨hbou, hloc, fun hok => (by cases hok), fun _ => hlive⟩, hkeep,
      fun hok => by cases hok⟩
  · dsimp only at hsome hope hkeep hbou hloc
    subst hsome
    rw [← length_bytes] at hope
    obtain ⟨s₂, hsync, hlive, hbou₂, hptr, -, -⟩ := hope.writeEntry hwf
    dsimp only
    rw [hsync]
    refine ⟨_, _, rfl, ⟨hbou.trans hbou₂ (by rw [hptr]) (by rw [hptr]), ?_, fun _ => hlive,
      fun hok => by cases hok⟩, ?_, fun _ => ?_⟩
    · rw [hptr, hloc]
    · rw [hptr]
      exact hkeep
    · rw [hptr]
      exact ⟨hope.base, hope.inSmm⟩

lemma Opened.live (h : Opened reserve s records 0) (hloc : s.ptr.smmLocked = false) :
    Live reserve s records :=
  ⟨h.awake, h.answers, h.wellFormed, fun hzero => absurd hzero h.base, fun _ => h.pages,
    fun _ => h.header, fun _ => h.contents, fun _ => h.length, fun _ => h.fits,
    fun hnot => absurd (hnot.symm.trans hloc) Bool.noConfusion⟩

lemma Live.not_grows (h : Live reserve s records) : ¬Grows reserve s 0 := by
  rintro ⟨hloc, hbase, hsma⟩
  have hfits := h.fits hbase
  rw [capacity_of_not_locked hloc] at hfits
  omega

lemma runtime_zero (h : Live reserve s records) (hloc : s.ptr.smmLocked = true) :
    s3BootScriptGetRuntimeEntryAddAddress s 0 =
      (some (s.ptr.tableBase + s.ptr.tableLength), s) := by
  have hbase : s.ptr.tableBase ≠ 0 := by
    intro hzero
    exact absurd (hloc.symm.trans (h.absent hzero).2) Bool.noConfusion
  have hsiz := sizes
  have hpag := h.pages hbase
  have hfits := h.fits hbase
  rw [capacity_of_locked hloc] at hfits
  obtain ⟨box, -, hsyn⟩ := h.synced hloc
  have hu32 : u32 (s.ptr.tableLength + 0) = s.ptr.tableLength := u32_of_lt (by omega)
  have hter : writeBytes s.memory (s.ptr.tableBase + s.ptr.tableLength) scriptTerminate =
      s.memory := writeBytes_eq_self hsyn.terminate
  have htot : writeBytes s.memory (s.ptr.tableBase + 5)
      (field 4 (s.ptr.tableLength + terminateSize)) = s.memory := by
    apply writeBytes_eq_self
    rw [length_field]
    exact hsyn.total
  unfold s3BootScriptGetRuntimeEntryAddAddress s3BootScriptInternalCloseTable
  rw [if_pos (by omega), hu32, if_neg hbase]
  unfold State.write
  dsimp only
  rw [hter, htot]

lemma open_eq (h : Live reserve s records) (hbase : s.ptr.tableBase ≠ 0)
    (hinS : s.ptr.smmLocked = true → s.ptr.inSmm = true) :
    s3BootScriptGetEntryAddAddress reserve s 0 =
      some (some (s.ptr.tableBase + s.ptr.tableLength), s) := by
  have hsiz := sizes
  have hpag := h.pages hbase
  have hfits := h.fits hbase
  unfold s3BootScriptGetEntryAddAddress
  cases hloc : s.ptr.smmLocked with
  | true =>
    rw [if_pos rfl, hinS hloc, h.awake, runtime_zero h hloc]
    rfl
  | false =>
    rw [capacity_of_not_locked hloc] at hfits
    have hnum : u16 (s.ptr.tableMemoryPageNumber + (2 ^ 16 - reserve)) =
        s.ptr.tableMemoryPageNumber - reserve := by
      unfold u16
      omega
    have hcre : createTable reserve s = (.success, s) := if_neg hbase
    have hgrow : growTable reserve s 0 = (.success, s) := by
      unfold growTable
      grind
    have hu32 : u32 (s.ptr.tableLength + 0) = s.ptr.tableLength := u32_of_lt (by omega)
    unfold s3BootScriptGetBootTimeEntryAddAddress
    rw [hcre]
    dsimp only
    rw [hgrow]
    dsimp only
    rw [hu32]
    rfl

lemma open_spec (h : Live reserve s records) (hres : reserve + 2 < 2 ^ 16) :
    ∃ script s', s3BootScriptGetEntryAddAddress reserve s 0 = some (script, s') ∧
      Live reserve s' records ∧ Bounded s s' ∧ s'.ptr.smmLocked = s.ptr.smmLocked ∧
      (s.ptr.tableBase ≠ 0 → s'.ptr.tableBase = s.ptr.tableBase ∧
        s'.ptr.tableMemoryPageNumber = s.ptr.tableMemoryPageNumber) ∧
      (script ≠ none → Opened reserve s' records 0) := by
  obtain ⟨⟨script, s'⟩, hget, hbou, hloc, hkeep, hcas⟩ :=
    got_getEntryAddAddress h hres (by decide : 0 < 256) fun hgrow => absurd hgrow h.not_grows
  refine ⟨script, s', hget, ?_, hbou, hloc, fun hbase => hkeep hbase h.not_grows, ?_⟩
  · rcases hcas with ⟨-, hlive⟩ | ⟨hsome, hope⟩
    · exact hlive
    · cases hold : s.ptr.smmLocked with
      | false => exact hope.live (hloc.trans hold)
      | true =>
        unfold s3BootScriptGetEntryAddAddress at hget
        rw [hold, if_pos rfl, h.awake] at hget
        grind [runtime_zero]
  grind

/-! ### Moving -/

/-- The last record can be moved: there is one, and it is not to be moved behind itself. -/
def Movable (records : List (List Byte)) (base : ℕ) (before : Bool) (position : ℕ) : Prop :=
  (position = 0 → records ≠ []) ∧
    (before = false →
      recordIndex records (base + headerSize) position ≠ some (records.length - 1))

lemma Opened.move {init : List (List Byte)} {r : List Byte}
    (h : Opened reserve s (init ++ [r]) 0) (pos : ℕ)
    (hval : pos ≠ 0 → (recordIndex (init ++ [r]) (s.ptr.tableBase + headerSize) pos).isSome)
    (hmov : Movable (init ++ [r]) s.ptr.tableBase before pos) :
    ∃ s' script, (do
        let (s, script) := s3BootScriptCalculateInsertAddress s r.length pos before
        let s ← syncBootScript (s.write script r) script
        some (s, script)) = some (s', script) ∧
      Live reserve s' (moveLast (init ++ [r]) s.ptr.tableBase before pos) ∧ Bounded s s' ∧
      s'.ptr = s.ptr ∧ s'.bootTimeBox = s.bootTimeBox ∧ s'.smmPrivateBox = s.smmPrivateBox := by
  have hsiz := sizes
  have hlen := h.length
  have hfits := h.fits.trans (Nat.mul_le_mul_right _ (capacity_le reserve s))
  have hpag := h.pages
  have hflat : (init ++ [r]).flatten.length = init.flatten.length + r.length := by simp
  rw [hflat] at hlen
  have hsub : sub32 s.ptr.tableLength r.length = headerSize + init.flatten.length := by
    rw [sub32_of_le (by omega) (by omega)]
    omega
  have hlast : (init ++ [r]).getLast? = some r := List.getLast?_concat
  have hinit : (init ++ [r]).dropLast = init := List.dropLast_concat
  -- the insertion before the `k`-th record
  have hins : ∀ k, ∃ s', syncBootScript ((s.write
        (s.ptr.tableBase + (headerSize + (init.take k).flatten.length) + r.length)
        (bytesAt s.memory (s.ptr.tableBase + (headerSize + (init.take k).flatten.length))
          (sub64 (headerSize + init.flatten.length)
            (headerSize + (init.take k).flatten.length)))).write
        (s.ptr.tableBase + (headerSize + (init.take k).flatten.length)) r)
        (s.ptr.tableBase + (headerSize + (init.take k).flatten.length)) = some s' ∧
      Live reserve s' (init.take k ++ r :: init.drop k) ∧ Bounded s s' ∧ s'.ptr = s.ptr ∧
      s'.bootTimeBox = s.bootTimeBox ∧ s'.smmPrivateBox = s.smmPrivateBox := by
    intro k
    have hspl : init.flatten.length = (init.take k).flatten.length +
        (init.drop k).flatten.length := by
      rw [← List.length_append, ← List.flatten_append, List.take_append_drop]
    have hsub64 : sub64 (headerSize + init.flatten.length)
        (headerSize + (init.take k).flatten.length) = (init.drop k).flatten.length := by
      unfold sub64 u64
      omega
    rw [hsub64]
    exact h.insertLast _ rfl
  unfold s3BootScriptCalculateInsertAddress moveLast
  rw [hlast, hinit]
  dsimp only
  rw [hsub]
  by_cases hpos : pos = 0
  · rw [if_neg (not_not.mpr hpos), if_pos hpos]
    cases before with
    | true =>
      obtain ⟨s', hsync, hrest⟩ := hins 0
      dsimp only [List.take_zero, List.flatten_nil, List.length_nil, Nat.add_zero] at hsync
      refine ⟨s', s.ptr.tableBase + headerSize, ?_, hrest⟩
      grind
    | false =>
      obtain ⟨s', hsync, hlive, hrest⟩ := hins init.length
      rw [List.take_length] at hsync
      rw [List.take_length, List.drop_length] at hlive
      refine ⟨s', s.ptr.tableBase + (headerSize + init.flatten.length), ?_, hlive, hrest⟩
      have hnot : sub64 (headerSize + init.flatten.length) (headerSize + init.flatten.length)
          = 0 := by
        unfold sub64 u64
        omega
      grind [bytesAt_zero, Bool.not_false, writeBytes_nil, State.write]
  · rw [if_pos hpos, if_neg hpos]
    obtain ⟨i, hi⟩ := Option.isSome_iff_exists.mp (hval hpos)
    obtain ⟨hlt, hadd⟩ := recordIndex_eq_some hi
    rw [hi]
    dsimp only
    rw [List.length_append, List.length_singleton] at hlt
    have hcon := h.contents
    cases before with
    | true =>
      obtain ⟨s', hsync, hrest⟩ := hins i
      have hoff : pos - s.ptr.tableBase + 0 = headerSize + (init.take i).flatten.length := by
        grind
      refine ⟨s', s.ptr.tableBase + (headerSize + (init.take i).flatten.length), ?_, hrest⟩
      simp only [if_true]
      rw [hoff, hsync]
      rfl
    | false =>
      have hne : i ≠ init.length := by
        intro heq
        have hmove := hmov.2 rfl
        grind
      obtain ⟨s', hsync, hrest⟩ := hins (i + 1)
      have hi' : i < init.length := by omega
      -- the record at the position
      have hspl : (init ++ [r]).flatten = (init.take i).flatten ++ (init[i] ++
          ((init.drop (i + 1)).flatten ++ r)) := by
        have hpar : init = init.take i ++ init[i] :: init.drop (i + 1) := by
          simp
        have hfla := congrArg List.flatten hpar
        rw [List.flatten_append, List.flatten_cons] at hfla
        rw [List.flatten_append, hfla]
        simp only [List.flatten_cons, List.flatten_nil, List.append_nil, List.append_assoc]
      rw [hspl, List.length_append, bytesAt_add] at hcon
      obtain ⟨-, hres₁⟩ := List.append_inj hcon (by simp)
      rw [List.length_append, bytesAt_add] at hres₁
      obtain ⟨hreco, -⟩ := List.append_inj hres₁ (by simp)
      have hwf : WellFormed init[i] :=
        h.wellFormed _ (List.mem_append_left _ (List.getElem_mem hi'))
      rw [List.take_append_of_le_length (by omega)] at hadd
      have hrec : lengthAt s.memory pos = init[i].length := by
        rw [hadd]
        exact lengthAt_of_wellFormed hwf hreco
      have htake : (init.take (i + 1)).flatten.length =
          (init.take i).flatten.length + init[i].length := by
        rw [List.take_succ_eq_append_getElem hi', List.flatten_append, List.length_append,
          List.flatten_cons, List.flatten_nil, List.append_nil]
      have hoff : pos - s.ptr.tableBase + lengthAt s.memory pos =
          headerSize + (init.take (i + 1)).flatten.length := by
        rw [hrec, htake]
        omega
      refine ⟨s', s.ptr.tableBase + (headerSize + (init.take (i + 1)).flatten.length), ?_, hrest⟩
      grind

lemma Opened.moveLast (h : Opened reserve s records 0)
    (hmov : Movable records s.ptr.tableBase before (position.getD 0)) :
    ∃ status s' position', moveLastOpcode s before position = some (status, s', position') ∧
      (status.isError = true → s' = s ∧ position.getD 0 ≠ 0 ∧
        recordIndex records (s.ptr.tableBase + headerSize) (position.getD 0) = none) ∧
      (status.isError = false → Bounded s s' ∧ s'.ptr = s.ptr ∧
        s'.bootTimeBox = s.bootTimeBox ∧ s'.smmPrivateBox = s.smmPrivateBox ∧
        Live reserve s' (moveLast records s.ptr.tableBase before (position.getD 0))) := by
  have hlen := h.length
  unfold moveLastOpcode
  obtain ⟨pos, hpos⟩ : ∃ pos, position.getD 0 = pos := ⟨_, rfl⟩
  rw [hpos] at hmov ⊢
  dsimp only
  rw [findLastOpcode_eq h.wellFormed h.contents (by omega) (by omega)]
  dsimp only [Option.bind_eq_bind, Option.bind_some, Bool.false_or]
  by_cases hval : pos ≠ 0 ∧ recordIndex records (s.ptr.tableBase + headerSize) pos = none
  · rw [if_pos ⟨hval.1, by simp [hval.2]⟩]
    exact ⟨_, _, _, rfl, fun _ => ⟨rfl, hval⟩, fun hok => by cases hok⟩
  · have hsome : pos ≠ 0 → (recordIndex records (s.ptr.tableBase + headerSize) pos).isSome := by
      grind [Option.isSome_iff_ne_none]
    rw [if_neg (fun hnot => by simp [hnot.1, hsome hnot.1] at hnot)]
    have hrec : records ≠ [] := by
      intro hnil
      by_cases hzero : pos = 0
      · exact hmov.1 hzero hnil
      · have := hsome hzero
        rw [hnil] at this
        cases this
    rcases List.eq_nil_or_concat records with hnil | ⟨init, r, rfl⟩
    · exact absurd hnil hrec
    · rw [List.concat_eq_append] at *
      rw [if_neg hrec, List.dropLast_concat]
      have hr : WellFormed r := h.wellFormed r (by simp)
      have hcon := h.contents
      rw [List.flatten_append, List.length_append, bytesAt_add] at hcon
      obtain ⟨-, hlast⟩ := List.append_inj hcon (by simp)
      have hlas' : bytesAt s.memory (s.ptr.tableBase + headerSize + init.flatten.length) r.length
          = r := by simpa using hlast
      rw [lengthAt_of_wellFormed hr hlas', hlas']
      obtain ⟨s', script, hmove, hlive, hbou, hptr, hboot, hpri⟩ :=
        h.move pos hsome hmov
      rcases hins : s3BootScriptCalculateInsertAddress s r.length pos before with ⟨s₁, script₁⟩
      rw [hins] at hmove
      dsimp only [Option.bind_eq_bind] at hmove ⊢
      obtain ⟨s₂, hsync, hres⟩ := Option.bind_eq_some_iff.mp hmove
      cases hres
      rw [hsync]
      exact ⟨_, _, _, rfl, fun hok => (by cases hok), fun _ => ⟨hbou, hptr, hboot, hpri, hlive⟩⟩

lemma move_spec (h : Live reserve s records) (hrese : reserve + 2 < 2 ^ 16)
    (hmov : Movable records s.ptr.tableBase before (position.getD 0)) :
    ∃ status s' position', s3BootScriptMoveLastOpcode reserve s before position =
        some (status, s', position') ∧
      Leaves reserve s records (moveLast records s.ptr.tableBase before (position.getD 0)) status
        s' := by
  unfold s3BootScriptMoveLastOpcode
  obtain ⟨script, s₁, hopen, hlive, hbou, hloc, hkeep, hope⟩ := open_spec h hrese
  rw [hopen]
  dsimp only [Option.bind_eq_bind, Option.bind_some]
  by_cases hscr : script = none
  · rw [if_pos hscr]
    exact ⟨_, _, _, rfl, ⟨hbou, hloc, fun hok => (by cases hok), fun _ => hlive⟩⟩
  · rw [if_neg hscr]
    have hmov₁ : Movable records s₁.ptr.tableBase before (position.getD 0) := by
      by_cases hbase : s.ptr.tableBase = 0
      · obtain ⟨rfl, -⟩ := h.absent hbase
        exact ⟨hmov.1, fun _ => by simp [recordIndex]⟩
      · rw [(hkeep hbase).1]
        exact hmov
    obtain ⟨status, s', position', hmove, herr, hok⟩ := (hope hscr).moveLast hmov₁
    refine ⟨status, s', position', hmove, ?_, ?_, ?_, ?_⟩
    · cases hst : status.isError with
      | true => rw [(herr hst).1]; exact hbou
      | false =>
        obtain ⟨hbou', hptr, -⟩ := hok hst
        exact hbou.trans hbou' (by rw [hptr]) (by rw [hptr])
    · cases hst : status.isError with
      | true => rw [(herr hst).1]; exact hloc
      | false => rw [(hok hst).2.1]; exact hloc
    · intro hst
      have hres := (hok hst).2.2.2.2
      by_cases hbase : s.ptr.tableBase = 0
      · obtain ⟨rfl, -⟩ := h.absent hbase
        exact hres
      · rw [(hkeep hbase).1] at hres
        exact hres
    · intro hst
      rw [(herr hst).1]
      exact hlive

/-! ### Labels -/

lemma recordIndex_append {a pos i : ℕ} {r : List Byte} (h : recordIndex records a pos = some i) :
    recordIndex (records ++ [r]) a pos = some i := by
  induction records generalizing a i with
  | nil => cases h
  | cons r' records ih =>
    rw [List.cons_append]
    unfold recordIndex at h ⊢
    split_ifs at h ⊢ with hpos
    · exact h
    · obtain ⟨j, hj, rfl⟩ := Option.map_eq_some_iff.mp h
      rw [ih hj]
      rfl

/-- A label can be created: its record is not too long, and the position is still one of the table
when the record has been appended. -/
structure Creatable (reserve : ℕ) (s : State) (records : List (List Byte)) (pos : ℕ)
    (label : AsciiString) : Prop where
  size : (labelEntry label).size < 256
  position : pos = 0 ∨ (recordIndex records (s.ptr.tableBase + headerSize) pos).isSome ∧
    ¬Grows reserve s (labelEntry label).size
  pages : Grows reserve s (labelEntry label).size → s.ptr.tableMemoryPageNumber + 2 < 2 ^ 16

/-- The records after a label was set. -/
def setLabel (records : List (List Byte)) (base : ℕ) (before : Bool) (pos : ℕ)
    (label : AsciiString) : List (List Byte) :=
  if HasLabel records label then records
  else moveLast (records ++ [(labelEntry label).bytes]) base before pos

lemma wellFormed_label (hsize : (labelEntry label).size < 256) :
    WellFormed (labelEntry label).bytes :=
  wellFormed_bytes hsize (by simp [labelEntry]) (by simp [labelEntry]) fun _ => ⟨label, rfl⟩

lemma labelInternal_spec (before : Bool) (h : Live reserve s records) (hbase : s.ptr.tableBase ≠ 0)
    (hres : reserve + 2 < 2 ^ 16)
    (hcre : Creatable reserve s records (position.getD 0) label) :
    ∃ status s' position', s3BootScriptLabelInternal reserve s before position label =
        some (status, s', position') ∧
      Leaves reserve s records (moveLast (records ++ [(labelEntry label).bytes]) s.ptr.tableBase
        before (position.getD 0)) status s' ∧
      (¬Grows reserve s (labelEntry label).size → s'.ptr.tableBase = s.ptr.tableBase ∧
        s'.ptr.tableMemoryPageNumber = s.ptr.tableMemoryPageNumber) := by
  obtain ⟨status₁, s₁, hsave, hlea, hkeep, hbas₁⟩ :=
    saveEntry_spec h hres hcre.size (wellFormed_label hcre.size) hcre.pages
  unfold s3BootScriptLabelInternal
  rw [hsave]
  dsimp only [Option.bind_eq_bind, Option.bind_some]
  cases hst₁ : status₁.isError with
  | true =>
    rw [if_pos rfl]
    refine ⟨_, _, _, rfl, ⟨hlea.bounded, hlea.locked, fun hok => ?_, hlea.error⟩, hkeep hbase⟩
    rw [hst₁] at hok
    cases hok
  | false =>
    rw [if_neg Bool.false_ne_true]
    obtain ⟨hbas', hinS⟩ := hbas₁ hst₁
    have hlive := hlea.ok hst₁
    have hmov : Movable (records ++ [(labelEntry label).bytes]) s₁.ptr.tableBase before
        (position.getD 0) := by
      refine ⟨fun _ => by simp, fun _ heq => ?_⟩
      rcases hcre.position with hzero | ⟨hsome, hnot⟩
      · have hadd := (recordIndex_eq_some heq).2
        omega
      · obtain ⟨i, hi⟩ := Option.isSome_iff_exists.mp hsome
        rw [(hkeep hbase hnot).1, recordIndex_append hi, Option.some.injEq,
          List.length_append, List.length_singleton] at heq
        have := (recordIndex_eq_some hi).1
        omega
    unfold s3BootScriptMoveLastOpcode
    rw [open_eq hlive hbas' hinS]
    dsimp only [Option.bind_eq_bind, Option.bind_some]
    rw [if_neg (by simp)]
    obtain ⟨script, s₂, hopen, -, -, -, -, hope⟩ := open_spec hlive hres
    rw [open_eq hlive hbas' hinS] at hopen
    cases hopen
    obtain ⟨status, s', position', hmove, herro, hok⟩ :=
      (hope (by simp)).moveLast hmov
    have hst : status.isError = false := by
      cases hst : status.isError with
      | false => rfl
      | true =>
        obtain ⟨-, hpos, hnone⟩ := herro hst
        rcases hcre.position with hzero | ⟨hsome, hnot⟩
        · exact absurd hzero hpos
        · obtain ⟨i, hi⟩ := Option.isSome_iff_exists.mp hsome
          grind [recordIndex_append]
    obtain ⟨hbou, hptr, -, -, hliv'⟩ := hok hst
    refine ⟨status, s', position', hmove, ⟨?_, ?_, fun _ => ?_, fun herr => ?_⟩, ?_⟩
    · exact hlea.bounded.trans hbou (by rw [hptr]) (by rw [hptr])
    · rw [hptr, hlea.locked]
    · rcases hcre.position with hzero | ⟨-, hnot⟩
      · grind [moveLast]
      · rwa [(hkeep hbase hnot).1] at hliv'
    · rw [hst] at herr
      cases herr
    · rw [hptr]
      exact hkeep hbase

lemma open_cases {script : ℕ} (h : Live reserve s records)
    (hopen : s3BootScriptGetEntryAddAddress reserve s 0 = some (some script, s')) :
    s.ptr.tableBase ≠ 0 → s' = s := by
  grind [open_eq, s3BootScriptGetEntryAddAddress]

/-- What becomes of the records when a label is set. -/
def labelRecords (records : List (List Byte)) (base : ℕ) (before : Bool) (pos : ℕ) :
    Option AsciiString → List (List Byte)
  | none => records
  | some label => setLabel records base before pos label

lemma label_spec {create : Bool} {label : Option AsciiString} {position' : Option ℕ}
    (h : Live reserve s records) (hres : reserve + 2 < 2 ^ 16)
    (hcar : ∀ l, label = some l → l.chars ≠ [] → ¬HasLabel records l → create = true →
      Creatable reserve s records (position.getD 0) l)
    (hstep : s3BootScriptLabel reserve s before create position label =
      some (status, s', position')) :
    Leaves reserve s records
      (labelRecords records s.ptr.tableBase before (position.getD 0) label) status s' := by
  have href : ∀ {st : EfiStatus} {t : State}, st.isError = true → Live reserve t records →
      Bounded s t → t.ptr.smmLocked = s.ptr.smmLocked → Leaves reserve s records
        (labelRecords records s.ptr.tableBase before (position.getD 0) label) st t := by
    intro st t hst hlive hbou hloc
    refine ⟨hbou, hloc, fun hok => ?_, fun _ => hlive⟩
    rw [hst] at hok
    cases hok
  unfold s3BootScriptLabel at hstep
  cases label with
  | none =>
    cases hstep
    exact href rfl h (Bounded.refl s) rfl
  | some label =>
    dsimp only at hstep
    by_cases hemp : label.chars = []
    · rw [if_pos hemp] at hstep
      cases hstep
      exact href rfl h (Bounded.refl s) rfl
    · rw [if_neg hemp] at hstep
      obtain ⟨script, s₁, hopen, hlive, hbou, hloc, hkeep, hope⟩ := open_spec h hres
      rw [hopen] at hstep
      dsimp only [Option.bind_eq_bind, Option.bind_some] at hstep
      cases script with
      | none =>
        rw [if_pos rfl] at hstep
        cases hstep
        exact href rfl hlive hbou hloc
      | some script =>
        rw [if_neg (by simp)] at hstep
        have ho := hope (by simp)
        rw [lengthAt_header ho.header, if_neg (not_not.mpr (opCodeAt_header ho.header))] at hstep
        obtain ⟨found, hfnd, hiff⟩ : ∃ found, findLabel s₁.memory label
            (s₁.ptr.tableBase + s₁.ptr.tableLength) s₁.ptr.tableLength
            (s₁.ptr.tableBase + headerSize) = some found ∧
            (found.isSome ↔ HasLabel records label) :=
          findLabel_eq ho.wellFormed ho.contents (by rw [ho.length]; omega)
            (by rw [ho.length]; omega)
        rw [hfnd] at hstep
        dsimp only [Option.bind_some] at hstep
        cases found with
        | some address =>
          dsimp only at hstep
          split_ifs at hstep with hnone
          cases hstep
          refine ⟨hbou, hloc, fun _ => ?_, fun _ => hlive⟩
          grind [labelRecords, setLabel]
        | none =>
          have hmis : ¬HasLabel records label := by simpa using hiff
          dsimp only at hstep
          cases create with
          | false =>
            rw [if_neg Bool.false_ne_true] at hstep
            cases hstep
            exact href rfl hlive hbou hloc
          | true =>
            rw [if_pos rfl] at hstep
            have hcre : Creatable reserve s records (position.getD 0) label :=
              hcar label rfl hemp hmis rfl
            by_cases hbase : s.ptr.tableBase = 0
            · obtain ⟨rfl, hnotL⟩ := h.absent hbase
              have hnot : ¬Grows reserve s₁ (labelEntry label).size := by
                rintro ⟨-, -, hsma⟩
                have hsiz := sizes
                have hsize := hcre.size
                have hlen := ho.length
                have hpag := ho.pages
                rw [List.flatten_nil, List.length_nil] at hlen
                omega
              have hzero : position.getD 0 = 0 :=
                hcre.position.resolve_right fun hsome => by cases hsome.1
              have hcre₁ : Creatable reserve s₁ [] (position.getD 0) label :=
                ⟨hcre.size, Or.inl hzero, fun hgrow => absurd hgrow hnot⟩
              obtain ⟨status₂, s₂, position₂, hint, hlea, hsame⟩ :=
                labelInternal_spec before hlive ho.base hres hcre₁
              rw [hint] at hstep
              cases hstep
              refine ⟨hbou.trans hlea.bounded (hsame hnot).1 (hsame hnot).2,
                hlea.locked.trans hloc, fun hok => ?_, hlea.error⟩
              have hresu := hlea.ok hok
              grind [labelRecords, setLabel, moveLast]
            · obtain rfl := open_cases h hopen hbase
              obtain ⟨status₂, s₂, position₂, hint, hlea, -⟩ :=
                labelInternal_spec before hlive ho.base hres hcre
              grind [labelRecords, setLabel]

end Edk2.BootScript
