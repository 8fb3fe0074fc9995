import Edk2.BootScript.Table

/-!
# The steps of the library

What holds between calls is `Live`: the table is a header and the records behind it, it fits in its
pages, and after `SmmReadyToLock` the LockBox agrees with it. A call first opens the table for an
entry and then writes it.
-/

namespace Edk2.BootScript

open Bytes LockBox

variable {reserve len off : ℕ} {s s' s'' : State} {records : List (List Byte)}
  {r : List Byte} {box : Box}

lemma sizes : headerSize = 13 ∧ terminateSize = 3 := ⟨rfl, rfl⟩

/-- The pages that the table may use for now. -/
def capacity (reserve : ℕ) (s : State) : ℕ :=
  if s.ptr.smmLocked then s.ptr.tableMemoryPageNumber
  else s.ptr.tableMemoryPageNumber - reserve

/-- The LockBox agrees with the table, which ends in a terminate record. -/
structure Synced (s : State) (box : Box) : Prop where
  buffer : box.buffer = s.ptr.tableBase
  length : box.bytes.length = s.ptr.tableMemoryPageNumber * 4096
  bytes : box.bytes.take (s.ptr.tableLength + terminateSize) =
    bytesAt s.memory s.ptr.tableBase (s.ptr.tableLength + terminateSize)
  total : bytesAt s.memory (s.ptr.tableBase + 5) 4 = field 4 (s.ptr.tableLength + terminateSize)
  terminate : bytesAt s.memory (s.ptr.tableBase + s.ptr.tableLength) terminateSize =
    scriptTerminate

structure Live (reserve : ℕ) (s : State) (records : List (List Byte)) : Prop where
  awake : s.ptr.backFromS3 = false
  answers : ∀ n b, s.answers n = some b → b ≠ 0
  wellFormed : ∀ r ∈ records, WellFormed r
  absent : s.ptr.tableBase = 0 → records = [] ∧ s.ptr.smmLocked = false
  pages : s.ptr.tableBase ≠ 0 → reserve + 2 ≤ s.ptr.tableMemoryPageNumber ∧
    s.ptr.tableMemoryPageNumber < 2 ^ 16
  header : s.ptr.tableBase ≠ 0 → bytesAt s.memory s.ptr.tableBase 3 = [0xAA, 0x00, 0x0D]
  contents : s.ptr.tableBase ≠ 0 →
    bytesAt s.memory (s.ptr.tableBase + headerSize) records.flatten.length = records.flatten
  length : s.ptr.tableBase ≠ 0 → s.ptr.tableLength = headerSize + records.flatten.length
  fits : s.ptr.tableBase ≠ 0 → s.ptr.tableLength + terminateSize ≤ capacity reserve s * 4096
  synced : s.ptr.smmLocked = true → ∃ box, s.dataBox = some box ∧ Synced s box

/-- The table is open for an entry of `len` bytes: it has its new length, but the entry is not
there yet, and the LockBox has not changed. -/
structure Opened (reserve : ℕ) (s : State) (records : List (List Byte)) (len : ℕ) : Prop where
  awake : s.ptr.backFromS3 = false
  answers : ∀ n b, s.answers n = some b → b ≠ 0
  wellFormed : ∀ r ∈ records, WellFormed r
  base : s.ptr.tableBase ≠ 0
  pages : reserve + 2 ≤ s.ptr.tableMemoryPageNumber ∧ s.ptr.tableMemoryPageNumber < 2 ^ 16
  header : bytesAt s.memory s.ptr.tableBase 3 = [0xAA, 0x00, 0x0D]
  contents : bytesAt s.memory (s.ptr.tableBase + headerSize) records.flatten.length =
    records.flatten
  length : s.ptr.tableLength = headerSize + records.flatten.length + len
  fits : s.ptr.tableLength + terminateSize ≤ capacity reserve s * 4096
  inSmm : s.ptr.smmLocked = true → s.ptr.inSmm = true
  synced : s.ptr.smmLocked = true → ∃ box, s.dataBox = some box ∧
    box.buffer = s.ptr.tableBase ∧ box.bytes.length = s.ptr.tableMemoryPageNumber * 4096 ∧
    (∀ i < headerSize + records.flatten.length, ¬(5 ≤ i ∧ i < 9) →
      box.bytes[i]? = some (s.memory (s.ptr.tableBase + i))) ∧
    bytesAt s.memory (s.ptr.tableBase + 5) 4 = field 4 (s.ptr.tableLength + terminateSize) ∧
    bytesAt s.memory (s.ptr.tableBase + s.ptr.tableLength) terminateSize = scriptTerminate

/-- All that was written is in the pages of the table. -/
def Bounded (s s' : State) : Prop := ∀ a, s'.memory a ≠ s.memory a →
  s'.ptr.tableBase ≤ a ∧ a < s'.ptr.tableBase + s'.ptr.tableMemoryPageNumber * 4096

lemma Bounded.refl (s : State) : Bounded s s := fun _ h => absurd rfl h

lemma Bounded.of_memory_eq (h : s'.memory = s.memory) : Bounded s s' := by
  intro a hne
  rw [h] at hne
  exact absurd rfl hne

lemma Bounded.trans (h : Bounded s s') (h' : Bounded s' s'')
    (hbase : s''.ptr.tableBase = s'.ptr.tableBase)
    (hpag : s''.ptr.tableMemoryPageNumber = s'.ptr.tableMemoryPageNumber) : Bounded s s'' := by
  intro a hne
  by_cases hsame : s''.memory a = s'.memory a
  · rw [hbase, hpag]
    exact h a (hsame ▸ hne)
  · exact h' a hsame

lemma capacity_of_not_locked (h : s.ptr.smmLocked = false) :
    capacity reserve s = s.ptr.tableMemoryPageNumber - reserve := by
  unfold capacity
  rw [h]
  rfl

lemma le_capacity {n : ℕ} (h : s.ptr.smmLocked = false)
    (hle : n ≤ (s.ptr.tableMemoryPageNumber - reserve) * 4096) : n ≤ capacity reserve s * 4096 := by
  rwa [capacity_of_not_locked h]

lemma capacity_of_locked (h : s.ptr.smmLocked = true) :
    capacity reserve s = s.ptr.tableMemoryPageNumber := if_pos h

lemma capacity_le (reserve : ℕ) (s : State) : capacity reserve s ≤ s.ptr.tableMemoryPageNumber := by
  grind [capacity, Nat.sub_le]

lemma length_patch {bytes data : List Byte} (h : off + data.length ≤ bytes.length) :
    (patch bytes off data).length = bytes.length := by
  unfold patch
  simp
  omega

lemma updateLockBox_eq {bytes : List Byte} (hne : bytes ≠ [])
    (h : off + bytes.length ≤ box.bytes.length) :
    updateLockBox (some box) off bytes = some { box with bytes := patch box.bytes off bytes } :=
  if_neg (not_or.mpr ⟨hne, Nat.not_lt.mpr h⟩)

/-- After `SyncBootScript` the LockBox agrees with the table, if it did before the place where the
table has changed. The length in the header need not have agreed. -/
lemma syncBootScript_eq (hinS : s.ptr.smmLocked = true → s.ptr.inSmm = true) (hoff : 9 ≤ off)
    (hle : off ≤ s.ptr.tableLength) (hpag : s.ptr.tableMemoryPageNumber < 2 ^ 16)
    (hfits : s.ptr.tableLength + terminateSize ≤ s.ptr.tableMemoryPageNumber * 4096)
    (hbox : s.ptr.smmLocked = true → ∃ box, s.dataBox = some box ∧
      box.buffer = s.ptr.tableBase ∧ box.bytes.length = s.ptr.tableMemoryPageNumber * 4096 ∧
      (∀ i < off, ¬(5 ≤ i ∧ i < 9) → box.bytes[i]? = some (s.memory (s.ptr.tableBase + i))) ∧
      bytesAt s.memory (s.ptr.tableBase + 5) 4 = field 4 (s.ptr.tableLength + terminateSize) ∧
      bytesAt s.memory (s.ptr.tableBase + s.ptr.tableLength) terminateSize = scriptTerminate) :
    ∃ s', syncBootScript s (s.ptr.tableBase + off) = some s' ∧ s'.memory = s.memory ∧
      s'.ptr = s.ptr ∧ s'.answers = s.answers ∧ s'.bootTimeBox = s.bootTimeBox ∧
      s'.smmPrivateBox = s.smmPrivateBox ∧
      (s.ptr.smmLocked = true → ∃ box, s'.dataBox = some box ∧ Synced s box) := by
  unfold syncBootScript
  cases hloc : s.ptr.smmLocked with
  | false => exact ⟨s, by simp, rfl, rfl, rfl, rfl, rfl, fun h => by cases h⟩
  | true =>
    obtain ⟨box, hdata, hbuf, hlen, hagr, htota, hter⟩ := hbox hloc
    have htot : s.ptr.tableLength + terminateSize < 2 ^ 32 := by omega
    have hoffL : off < 2 ^ 32 := by omega
    have hsub : sub32 (s.ptr.tableLength + terminateSize) off =
        s.ptr.tableLength + terminateSize - off := sub32_of_le (by omega) htot
    rw [hinS hloc, Nat.add_sub_cancel_left, u32_of_lt hoffL, u32_of_lt htot,
      if_neg (by decide)]
    dsimp only
    rw [hsub]
    have hfst : off + (bytesAt s.memory (s.ptr.tableBase + off)
        (s.ptr.tableLength + terminateSize - off)).length ≤ box.bytes.length := by
      rw [length_bytesAt, hlen]
      omega
    have hnon : bytesAt s.memory (s.ptr.tableBase + off)
        (s.ptr.tableLength + terminateSize - off) ≠ [] := by
      apply List.ne_nil_of_length_pos
      have hsize : terminateSize = 3 := rfl
      rw [length_bytesAt]
      omega
    rw [hdata, updateLockBox_eq hnon hfst]
    have hsec : 5 + (field 4 (s.ptr.tableLength + terminateSize)).length ≤
        (patch box.bytes off (bytesAt s.memory (s.ptr.tableBase + off)
          (s.ptr.tableLength + terminateSize - off))).length := by
      rw [length_patch hfst, length_field, hlen]
      omega
    dsimp only [Option.bind_eq_bind, Option.bind_some]
    rw [updateLockBox_eq (List.ne_nil_of_length_pos (by rw [length_field]; decide)) hsec]
    refine ⟨_, rfl, rfl, rfl, rfl, rfl, rfl, fun _ => ⟨_, rfl, hbuf, ?_, ?_, htota, hter⟩⟩
    · rw [length_patch hsec, length_patch hfst, hlen]
    · apply List.ext_getElem?
      intro i
      rw [getElem?_bytesAt]
      by_cases hi : i < s.ptr.tableLength + terminateSize
      · rw [List.getElem?_take_of_lt hi, if_pos hi, getElem?_patch, length_field]
        have hinn : (patch box.bytes off (bytesAt s.memory (s.ptr.tableBase + off)
            (s.ptr.tableLength + terminateSize - off)))[i]? =
            if i < off then box.bytes[i]? else some (s.memory (s.ptr.tableBase + i)) := by
          rw [getElem?_patch, length_bytesAt]
          split_ifs with hlt hin
          · simp [show i < box.bytes.length by omega]
          · rw [getElem?_bytesAt, if_pos (by omega)]
            congr 2
            omega
          · omega
        by_cases hhead : 5 ≤ i ∧ i < 9
        · grind [getElem?_bytesAt]
        grind
      · rw [if_neg hi, List.getElem?_eq_none]
        simp
        omega

lemma Synced.getElem? (h : Synced s box) {i : ℕ} (hi : i < s.ptr.tableLength + terminateSize) :
    box.bytes[i]? = some (s.memory (s.ptr.tableBase + i)) := by
  have hget := congrArg (·[i]?) h.bytes
  grind [List.getElem?_take_of_lt, getElem?_bytesAt]

/-! ### Opening the table -/

lemma Live.next (h : Live reserve s records) : Live reserve s.next records :=
  ⟨h.awake, fun n => h.answers (n + 1), h.wellFormed, h.absent, h.pages, h.header, h.contents,
    h.length, h.fits, fun hloc => by
      obtain ⟨box, hbox, hsyn⟩ := h.synced hloc
      exact ⟨box, hbox, hsyn.buffer, hsyn.length, hsyn.bytes, hsyn.total, hsyn.terminate⟩⟩

/-- The table needs more pages for an entry. -/
def Grows (reserve : ℕ) (s : State) (len : ℕ) : Prop :=
  s.ptr.smmLocked = false ∧ s.ptr.tableBase ≠ 0 ∧
    (s.ptr.tableMemoryPageNumber - reserve) * 4096 < s.ptr.tableLength + len + terminateSize

lemma createTable_spec (h : Live reserve s records) (hloc : s.ptr.smmLocked = false)
    (hres : reserve + 2 < 2 ^ 16) :
    ∃ status s', createTable reserve s = (status, s') ∧ Live reserve s' records ∧
      Bounded s s' ∧ s'.ptr.smmLocked = false ∧ (s.ptr.tableBase ≠ 0 → status = .success ∧ s' = s) ∧
      (status.isError = false → s'.ptr.tableBase ≠ 0) := by
  unfold createTable
  by_cases hbase : s.ptr.tableBase = 0
  · rw [if_pos hbase]
    cases hans : s.answers 0 with
    | none =>
      exact ⟨_, _, rfl, h.next, Bounded.of_memory_eq rfl, hloc, fun hne => absurd hbase hne,
        fun hok => by cases hok⟩
    | some base =>
      have hnew : base ≠ 0 := h.answers 0 base hans
      have hpag : u16 (2 + reserve) = 2 + reserve := Nat.mod_eq_of_lt (by omega)
      obtain ⟨rfl, -⟩ := h.absent hbase
      have hhdr : bytesAt (writeBytes s.memory base ([0xAA, 0x00, 0x0D, 0x01, 0x00] ++ field 4 0))
          base 9 = [0xAA, 0x00, 0x0D, 0x01, 0x00] ++ field 4 0 := bytesAt_writeBytes_self
      refine ⟨_, _, rfl, ⟨h.awake, fun n => h.answers (n + 1), h.wellFormed, ?_, ?_, ?_, ?_, ?_, ?_,
        ?_⟩, ?_, hloc, fun hne => absurd hbase hne, fun _ => hnew⟩
      · exact fun hzero => absurd hzero hnew
      · intro _
        dsimp only
        rw [hpag]
        omega
      · intro _
        have htake := congrArg (List.take 3) hhdr
        rwa [take_bytesAt (by decide)] at htake
      · exact fun _ => rfl
      · exact fun _ => rfl
      · intro _
        refine le_capacity hloc ?_
        dsimp only
        rw [hpag]
        show 13 + 3 ≤ _
        omega
      · exact fun hnot => absurd (hnot.symm.trans hloc) Bool.noConfusion
      · intro a hne
        have hin := writeBytes_ne hne
        refine ⟨hin.1, hin.2.trans_le ?_⟩
        dsimp only
        rw [hpag]
        simp
        omega
  · rw [if_neg hbase]
    exact ⟨_, _, rfl, h, Bounded.refl s, hloc, fun _ => ⟨rfl, rfl⟩, fun _ => hbase⟩

lemma growTable_spec (h : Live reserve s records) (hloc : s.ptr.smmLocked = false)
    (hbase : s.ptr.tableBase ≠ 0) (hlen : len < 256)
    (hgro : Grows reserve s len → s.ptr.tableMemoryPageNumber + 2 < 2 ^ 16) :
    ∃ status s', growTable reserve s len = (status, s') ∧ Live reserve s' records ∧
      Bounded s s' ∧ s'.ptr.smmLocked = false ∧ s'.ptr.tableBase ≠ 0 ∧
      (¬Grows reserve s len → status = .success ∧ s' = s) ∧
      (status.isError = false → s'.ptr.tableLength + len + terminateSize ≤
        (s'.ptr.tableMemoryPageNumber - reserve) * 4096) := by
  have hpage := h.pages hbase
  have hnum : u16 (s.ptr.tableMemoryPageNumber + (2 ^ 16 - reserve)) =
      s.ptr.tableMemoryPageNumber - reserve := by
    unfold u16
    omega
  unfold growTable
  dsimp only
  rw [hnum]
  by_cases hsma : (s.ptr.tableMemoryPageNumber - reserve) * 4096 <
      s.ptr.tableLength + len + terminateSize
  · have hgrow : Grows reserve s len := ⟨hloc, hbase, hsma⟩
    have hroom := hgro hgrow
    rw [if_pos hsma]
    cases hans : s.answers 0 with
    | none =>
      exact ⟨_, _, rfl, h.next, Bounded.of_memory_eq rfl, hloc, hbase,
        fun hnot => absurd hgrow hnot, fun hok => by cases hok⟩
    | some base =>
      have hnew : base ≠ 0 := h.answers 0 base hans
      have hmore : u16 (2 + (s.ptr.tableMemoryPageNumber - reserve) + reserve) =
          s.ptr.tableMemoryPageNumber + 2 := by
        unfold u16
        omega
      have hcopy : bytesAt (writeBytes s.memory base
          (bytesAt s.memory s.ptr.tableBase s.ptr.tableLength)) base s.ptr.tableLength =
          bytesAt s.memory s.ptr.tableBase s.ptr.tableLength := by
        have hsize : (bytesAt s.memory s.ptr.tableBase s.ptr.tableLength).length =
          s.ptr.tableLength := length_bytesAt
        nth_rewrite 2 [← hsize]
        exact bytesAt_writeBytes_self
      have hleng := h.length hbase
      have hfits := h.fits hbase
      have hsiz := sizes
      rw [capacity_of_not_locked hloc] at hfits
      have hpag : s.ptr.tableLength + len + terminateSize ≤
          (s.ptr.tableMemoryPageNumber + 2 - reserve) * 4096 := by omega
      refine ⟨_, _, rfl, ⟨h.awake, fun n => h.answers (n + 1), h.wellFormed, ?_, ?_, ?_, ?_, ?_, ?_,
        ?_⟩, ?_, hloc, hnew, fun hnot => absurd hgrow hnot, ?_⟩
      · exact fun hzero => absurd hzero hnew
      · intro _
        dsimp only
        rw [hmore]
        omega
      · intro _
        have htake := congrArg (List.take 3) hcopy
        rw [take_bytesAt (by omega), take_bytesAt (by omega), h.header hbase] at htake
        exact htake
      · intro _
        have hdrop := congrArg (List.drop headerSize) hcopy
        have hrest : s.ptr.tableLength - headerSize = records.flatten.length := by omega
        rw [drop_bytesAt (by omega), drop_bytesAt (by omega), hrest, h.contents hbase] at hdrop
        exact hdrop
      · exact fun _ => hleng
      · intro _
        refine le_capacity hloc ?_
        dsimp only
        rw [hmore]
        exact le_trans (Nat.add_le_add_right (Nat.le_add_right _ len) _) hpag
      · exact fun hnot => absurd (hnot.symm.trans hloc) Bool.noConfusion
      · intro a hne
        have hin := writeBytes_ne hne
        grind [length_bytesAt]
      · intro _
        dsimp only
        rw [hmore]
        exact hpag
  · rw [if_neg hsma]
    exact ⟨_, _, rfl, h, Bounded.refl s, hloc, hbase, fun _ => ⟨rfl, rfl⟩,
      fun _ => Nat.not_lt.mp hsma⟩

/-- What a call to get the address of an entry gives. -/
def Got (reserve : ℕ) (s : State) (records : List (List Byte)) (len : ℕ)
    (r : Option ℕ × State) : Prop :=
  Bounded s r.2 ∧ r.2.ptr.smmLocked = s.ptr.smmLocked ∧
    (s.ptr.tableBase ≠ 0 → ¬Grows reserve s len → r.2.ptr.tableBase = s.ptr.tableBase ∧
      r.2.ptr.tableMemoryPageNumber = s.ptr.tableMemoryPageNumber) ∧
    (r.1 = none ∧ Live reserve r.2 records ∨
      r.1 = some (r.2.ptr.tableBase + (headerSize + records.flatten.length)) ∧
        Opened reserve r.2 records len)

lemma got_bootTime (h : Live reserve s records) (hloc : s.ptr.smmLocked = false)
    (hres : reserve + 2 < 2 ^ 16) (hlen : len < 256)
    (hgro : Grows reserve s len → s.ptr.tableMemoryPageNumber + 2 < 2 ^ 16) :
    Got reserve s records len (s3BootScriptGetBootTimeEntryAddAddress reserve s len) := by
  have hsiz := sizes
  unfold s3BootScriptGetBootTimeEntryAddAddress
  obtain ⟨status₁, s₁, hcre, hliv₁, hbou₁, hloc₁, hsam₁, hbas₁⟩ :=
    createTable_spec h hloc hres
  rw [hcre]
  dsimp only
  cases hst₁ : status₁.isError with
  | true =>
    rw [if_pos rfl]
    refine ⟨hbou₁, hloc₁.trans hloc.symm, fun hbase _ => ?_, Or.inl ⟨rfl, hliv₁⟩⟩
    rw [(hsam₁ hbase).2]
    exact ⟨rfl, rfl⟩
  | false =>
    rw [if_neg Bool.false_ne_true]
    have hbase := hbas₁ hst₁
    have hgro₁ : Grows reserve s₁ len → s₁.ptr.tableMemoryPageNumber + 2 < 2 ^ 16 := by
      intro hgrow
      by_cases hold : s.ptr.tableBase = 0
      · -- a new table has room for any entry
        obtain ⟨rfl, -⟩ := h.absent hold
        have hleng : s₁.ptr.tableLength = headerSize := hliv₁.length hbase
        have hpag := hliv₁.pages hbase
        have hsma := hgrow.2.2
        rw [hleng] at hsma
        omega
      · obtain ⟨-, rfl⟩ := hsam₁ hold
        exact hgro hgrow
    obtain ⟨status₂, s₂, hgrow, hliv₂, hbou₂, hloc₂, hbas₂, hsam₂, hroom⟩ :=
      growTable_spec hliv₁ hloc₁ hbase hlen hgro₁
    rw [hgrow]
    dsimp only
    have hkeep : s.ptr.tableBase ≠ 0 → ¬Grows reserve s len →
        s₂.ptr.tableBase = s.ptr.tableBase ∧
          s₂.ptr.tableMemoryPageNumber = s.ptr.tableMemoryPageNumber := by
      intro hold hnot
      obtain ⟨-, rfl⟩ := hsam₁ hold
      rw [(hsam₂ hnot).2]
      exact ⟨rfl, rfl⟩
    have hbou : Bounded s s₂ := by
      by_cases hold : s.ptr.tableBase = 0
      · by_cases hnot : Grows reserve s₁ len
        · obtain ⟨rfl, -⟩ := h.absent hold
          have hleng : s₁.ptr.tableLength = headerSize := hliv₁.length hbase
          have hpag := hliv₁.pages hbase
          have hsma := hnot.2.2
          rw [hleng] at hsma
          omega
        · rw [(hsam₂ hnot).2]
          exact hbou₁
      · rw [(hsam₁ hold).2] at hbou₂
        exact hbou₂
    cases hst₂ : status₂.isError with
    | true =>
      rw [if_pos rfl]
      exact ⟨hbou, hloc₂.trans hloc.symm, hkeep, Or.inl ⟨rfl, hliv₂⟩⟩
    | false =>
      rw [if_neg Bool.false_ne_true]
      have hroo₂ := hroom hst₂
      have hleng := hliv₂.length hbas₂
      have hpag := hliv₂.pages hbas₂
      have hu32 : u32 (s₂.ptr.tableLength + len) = s₂.ptr.tableLength + len :=
        u32_of_lt (by omega)
      refine ⟨hbou, hloc₂.trans hloc.symm, hkeep, Or.inr ⟨?_, hliv₂.awake,
        hliv₂.answers, hliv₂.wellFormed, hbas₂, hpag, hliv₂.header hbas₂,
        hliv₂.contents hbas₂, ?_, ?_, fun hnot => ?_, fun hnot => ?_⟩⟩
      · rw [hleng]
      · dsimp only
        rw [hu32, hleng]
      · refine le_capacity hloc₂ ?_
        dsimp only
        rw [hu32]
        exact hroo₂
      · exact absurd (hnot.symm.trans hloc₂) Bool.noConfusion
      grind

/-- The table is closed: nothing but the length in the header and what is behind the records is
written. -/
lemma closeTable_spec (hbase : s.ptr.tableBase ≠ 0) (hlen : headerSize ≤ s.ptr.tableLength)
    (hfits : s.ptr.tableLength + terminateSize ≤ s.ptr.tableMemoryPageNumber * 4096) :
    ∃ m, s3BootScriptInternalCloseTable s = { s with memory := m } ∧
      (∀ a, m a ≠ s.memory a → s.ptr.tableBase ≤ a ∧
        a < s.ptr.tableBase + s.ptr.tableMemoryPageNumber * 4096) ∧
      (∀ a, a < s.ptr.tableBase + 5 ∨ s.ptr.tableBase + 9 ≤ a ∧
        a < s.ptr.tableBase + s.ptr.tableLength → m a = s.memory a) ∧
      bytesAt m (s.ptr.tableBase + 5) 4 = field 4 (s.ptr.tableLength + terminateSize) ∧
      bytesAt m (s.ptr.tableBase + s.ptr.tableLength) terminateSize = scriptTerminate := by
  have hsiz := sizes
  have hthr : scriptTerminate.length = 3 := rfl
  obtain ⟨m₁, hm₁⟩ : ∃ m, m = writeBytes s.memory (s.ptr.tableBase + s.ptr.tableLength)
    scriptTerminate := ⟨_, rfl⟩
  obtain ⟨m₂, hm₂⟩ : ∃ m, m = writeBytes m₁ (s.ptr.tableBase + 5)
    (field 4 (s.ptr.tableLength + terminateSize)) := ⟨_, rfl⟩
  refine ⟨m₂, ?_, ?_, ?_, ?_, ?_⟩
  · rw [hm₂, hm₁, s3BootScriptInternalCloseTable, if_neg hbase]
    rfl
  · intro a hne
    by_cases hfie : m₂ a = m₁ a
    · rw [hfie, hm₁] at hne
      have hin := writeBytes_ne hne
      omega
    · rw [hm₂] at hfie
      have hin := writeBytes_ne hfie
      rw [length_field] at hin
      omega
  · intro a ha
    rw [hm₂, hm₁]
    rcases ha with ha | ha
    · rw [writeBytes_of_lt ha, writeBytes_of_lt (by omega)]
    · rw [writeBytes_of_ge (by rw [length_field]; omega), writeBytes_of_lt ha.2]
  · have hself : bytesAt (writeBytes m₁ (s.ptr.tableBase + 5)
        (field 4 (s.ptr.tableLength + terminateSize))) (s.ptr.tableBase + 5)
        (field 4 (s.ptr.tableLength + terminateSize)).length =
        field 4 (s.ptr.tableLength + terminateSize) := bytesAt_writeBytes_self
    rw [length_field] at hself
    rw [hm₂, hself]
  · rw [hm₂, bytesAt_writeBytes_of_apart (Or.inr (by rw [length_field]; omega)), hm₁]
    exact bytesAt_writeBytes_self

lemma got_runtime (h : Live reserve s records) (hloc : s.ptr.smmLocked = true)
    (hinS : s.ptr.inSmm = true) :
    Got reserve s records len (s3BootScriptGetRuntimeEntryAddAddress s len) := by
  have hsiz := sizes
  have hbase : s.ptr.tableBase ≠ 0 := by
    intro hzero
    exact absurd (hloc.symm.trans (h.absent hzero).2) Bool.noConfusion
  have hlen := h.length hbase
  have hpag := h.pages hbase
  unfold s3BootScriptGetRuntimeEntryAddAddress
  by_cases hroom : s.ptr.tableLength + len + terminateSize ≤ s.ptr.tableMemoryPageNumber * 4096
  · obtain ⟨box, hbox, hsyn⟩ := h.synced hloc
    have hu32 : u32 (s.ptr.tableLength + len) = s.ptr.tableLength + len := u32_of_lt (by omega)
    obtain ⟨m₂, hclo, hbou, hkeep, htot, hter⟩ := closeTable_spec (s := { s with
      ptr := { s.ptr with tableLength := s.ptr.tableLength + len } }) hbase (by dsimp only; omega)
      hroom
    dsimp only at hclo hbou hkeep htot hter
    rw [if_pos hroom, hu32, hclo]
    refine ⟨hbou, rfl, fun _ _ => ⟨rfl, rfl⟩, Or.inr ⟨?_, h.awake, h.answers, h.wellFormed, hbase,
      hpag, ?_, ?_, ?_, ?_, fun _ => hinS, fun _ => ⟨box, hbox, hsyn.buffer,
      hsyn.length, ?_, htot, hter⟩⟩⟩
    · rw [hlen]
    · refine Eq.trans (bytesAt_congr fun a hle hlt => hkeep a ?_) (h.header hbase)
      dsimp only at hle hlt
      omega
    · refine Eq.trans (bytesAt_congr fun a hle hlt => hkeep a ?_) (h.contents hbase)
      dsimp only at hle hlt
      omega
    · dsimp only
      rw [hlen]
    · have hcap : capacity reserve s = s.ptr.tableMemoryPageNumber := capacity_of_locked hloc
      show s.ptr.tableLength + len + terminateSize ≤ capacity reserve s * 4096
      rwa [hcap]
    · intro i hi hnot
      rw [hsyn.getElem? (by omega)]
      congr 1
      refine (hkeep _ ?_).symm
      omega
  · rw [if_neg hroom]
    exact ⟨Bounded.refl s, rfl, fun _ _ => ⟨rfl, rfl⟩, Or.inl ⟨rfl, h⟩⟩

lemma got_getEntryAddAddress (h : Live reserve s records) (hres : reserve + 2 < 2 ^ 16)
    (hlen : len < 256)
    (hgro : Grows reserve s len → s.ptr.tableMemoryPageNumber + 2 < 2 ^ 16) :
    ∃ r, s3BootScriptGetEntryAddAddress reserve s len = some r ∧ Got reserve s records len r := by
  unfold s3BootScriptGetEntryAddAddress
  cases hloc : s.ptr.smmLocked with
  | false => exact ⟨_, rfl, got_bootTime h hloc hres hlen hgro⟩
  | true =>
    cases hinS : s.ptr.inSmm with
    | false =>
      exact ⟨_, rfl, Bounded.refl s, rfl, fun _ _ => ⟨rfl, rfl⟩, Or.inl ⟨rfl, h⟩⟩
    | true =>
      rw [h.awake]
      exact ⟨_, rfl, got_runtime h hloc hinS⟩

/-! ### Writing -/

lemma live_of_sync (reserve off : ℕ) (records : List (List Byte)) (hawa : s.ptr.backFromS3 = false)
    (hans : ∀ n b, s.answers n = some b → b ≠ 0) (hwf : ∀ r ∈ records, WellFormed r)
    (hbase : s.ptr.tableBase ≠ 0)
    (hpag : reserve + 2 ≤ s.ptr.tableMemoryPageNumber ∧ s.ptr.tableMemoryPageNumber < 2 ^ 16)
    (hhdr : bytesAt s.memory s.ptr.tableBase 3 = [0xAA, 0x00, 0x0D])
    (hcon : bytesAt s.memory (s.ptr.tableBase + headerSize) records.flatten.length =
      records.flatten)
    (hlen : s.ptr.tableLength = headerSize + records.flatten.length)
    (hfits : s.ptr.tableLength + terminateSize ≤ capacity reserve s * 4096)
    (hinS : s.ptr.smmLocked = true → s.ptr.inSmm = true) (hoff : 9 ≤ off)
    (hle : off ≤ s.ptr.tableLength)
    (hbox : s.ptr.smmLocked = true → ∃ box, s.dataBox = some box ∧
      box.buffer = s.ptr.tableBase ∧ box.bytes.length = s.ptr.tableMemoryPageNumber * 4096 ∧
      (∀ i < off, ¬(5 ≤ i ∧ i < 9) → box.bytes[i]? = some (s.memory (s.ptr.tableBase + i))) ∧
      bytesAt s.memory (s.ptr.tableBase + 5) 4 = field 4 (s.ptr.tableLength + terminateSize) ∧
      bytesAt s.memory (s.ptr.tableBase + s.ptr.tableLength) terminateSize = scriptTerminate) :
    ∃ s', syncBootScript s (s.ptr.tableBase + off) = some s' ∧ Live reserve s' records ∧
      s'.memory = s.memory ∧ s'.ptr = s.ptr ∧ s'.bootTimeBox = s.bootTimeBox ∧
      s'.smmPrivateBox = s.smmPrivateBox := by
  have hall : s.ptr.tableLength + terminateSize ≤ s.ptr.tableMemoryPageNumber * 4096 :=
    hfits.trans (Nat.mul_le_mul_right _ (capacity_le reserve s))
  obtain ⟨s', hsync, hmem, hptr, hans', hboot, hpri, hsyn⟩ :=
    syncBootScript_eq hinS hoff hle hpag.2 hall hbox
  refine ⟨s', hsync, ⟨?_, ?_, hwf, ?_, ?_, ?_, ?_, ?_, ?_, ?_⟩, hmem, hptr, hboot, hpri⟩
  · rwa [hptr]
  · rwa [hans']
  · rw [hptr]
    exact fun hzero => absurd hzero hbase
  · rw [hptr]
    exact fun _ => hpag
  · rw [hptr, hmem]
    exact fun _ => hhdr
  · rw [hptr, hmem]
    exact fun _ => hcon
  · rw [hptr]
    exact fun _ => hlen
  · grind [capacity]
  · rw [hptr]
    intro hloc
    obtain ⟨box, hbox', hs⟩ := hsyn hloc
    refine ⟨box, hbox', ?_, ?_, ?_, ?_, ?_⟩
    · rw [hptr, hs.buffer]
    · rw [hptr, hs.length]
    · rw [hptr, hmem, hs.bytes]
    · rw [hptr, hmem, hs.total]
    · rw [hptr, hmem, hs.terminate]

lemma Opened.writeEntry (h : Opened reserve s records r.length) (hr : WellFormed r) :
    ∃ s', syncBootScript (s.write (s.ptr.tableBase + (headerSize + records.flatten.length)) r)
        (s.ptr.tableBase + (headerSize + records.flatten.length)) = some s' ∧
      Live reserve s' (records ++ [r]) ∧ Bounded s s' ∧ s'.ptr = s.ptr ∧
      s'.bootTimeBox = s.bootTimeBox ∧ s'.smmPrivateBox = s.smmPrivateBox := by
  have hsiz := sizes
  have hlen := h.length
  have hfits := h.fits.trans (Nat.mul_le_mul_right _ (capacity_le reserve s))
  have hrle := hr.le
  have hflat : (records ++ [r]).flatten = records.flatten ++ r := by simp
  have hkeep : ∀ {start size : ℕ}, start + size ≤
      s.ptr.tableBase + (headerSize + records.flatten.length) ∨
      s.ptr.tableBase + s.ptr.tableLength ≤ start →
      bytesAt (writeBytes s.memory (s.ptr.tableBase + (headerSize + records.flatten.length)) r)
        start size = bytesAt s.memory start size := by
    intro start size hapa
    exact bytesAt_writeBytes_of_apart (hapa.imp id fun hge => by omega)
  have hlive := live_of_sync reserve (headerSize + records.flatten.length) (records ++ [r])
    (s := s.write (s.ptr.tableBase + (headerSize + records.flatten.length)) r)
    h.awake h.answers ?_ h.base h.pages ?_ ?_ ?_ h.fits h.inSmm (by omega) ?_ ?_
  · obtain ⟨s', hsync, hlive, hmem, hptr, hboot, hpri⟩ := hlive
    refine ⟨s', hsync, hlive, ?_, hptr, hboot, hpri⟩
    intro a hne
    rw [hmem] at hne
    rw [hptr]
    have hin := writeBytes_ne hne
    show s.ptr.tableBase ≤ a ∧ a < s.ptr.tableBase + s.ptr.tableMemoryPageNumber * 4096
    omega
  · intro r' hr'
    rcases List.mem_append.mp hr' with hold | hnew
    · exact h.wellFormed r' hold
    · obtain rfl := List.mem_singleton.mp hnew
      exact hr
  · show bytesAt (writeBytes _ _ _) s.ptr.tableBase 3 = _
    exact (hkeep (Or.inl (by omega))).trans h.header
  · show bytesAt (writeBytes _ _ _) _ _ = _
    rw [hflat, List.length_append, bytesAt_add]
    congr 1
    · exact (hkeep (Or.inl (by show s.ptr.tableBase + _ + _ ≤ _; omega))).trans h.contents
    · rw [Nat.add_assoc]
      exact bytesAt_writeBytes_self
  · show s.ptr.tableLength = _
    rw [hflat, List.length_append]
    omega
  · show _ ≤ s.ptr.tableLength
    omega
  · intro hloc
    obtain ⟨box, hbox, hbuf, hboxL, hagr, htot, hter⟩ := h.synced hloc
    refine ⟨box, hbox, hbuf, hboxL, fun i hi hnot => ?_, ?_, ?_⟩
    · rw [hagr i hi hnot]
      congr 1
      exact (writeBytes_of_lt (Nat.add_lt_add_left hi _)).symm
    · show bytesAt (writeBytes _ _ _) (s.ptr.tableBase + 5) 4 = _
      exact (hkeep (Or.inl (by omega))).trans htot
    · exact (hkeep (Or.inr le_rfl)).trans hter

lemma Opened.insertLast {init : List (List Byte)} {k : ℕ} (h : Opened reserve s (init ++ [r]) 0)
    (off : ℕ) (hoff : off = headerSize + (init.take k).flatten.length) :
    ∃ s', syncBootScript ((s.write (s.ptr.tableBase + off + r.length)
        (bytesAt s.memory (s.ptr.tableBase + off) (init.drop k).flatten.length)).write
          (s.ptr.tableBase + off) r) (s.ptr.tableBase + off) = some s' ∧
      Live reserve s' (init.take k ++ r :: init.drop k) ∧ Bounded s s' ∧ s'.ptr = s.ptr ∧
      s'.bootTimeBox = s.bootTimeBox ∧ s'.smmPrivateBox = s.smmPrivateBox := by
  have hsiz := sizes
  have hr : WellFormed r := h.wellFormed r (by simp)
  have hrle := hr.le
  obtain ⟨A, hA⟩ : ∃ A, A = (init.take k).flatten := ⟨_, rfl⟩
  obtain ⟨B, hB⟩ : ∃ B, B = (init.drop k).flatten := ⟨_, rfl⟩
  have hold : (init ++ [r]).flatten = A ++ (B ++ r) := by
    grind [List.append_assoc, List.flatten_append, List.take_append_drop]
  have hnew : (init.take k ++ r :: init.drop k).flatten = A ++ (r ++ B) := by
    rw [hA, hB]
    simp
  have hlen := h.length
  have hfits := h.fits.trans (Nat.mul_le_mul_right _ (capacity_le reserve s))
  have hcon := h.contents
  rw [hold] at hcon hlen
  rw [List.length_append, bytesAt_add, List.length_append] at hcon
  rw [List.length_append, List.length_append] at hlen
  rw [← hA] at hoff
  obtain ⟨hAt, hrest⟩ := List.append_inj hcon (by simp)
  rw [bytesAt_add] at hrest
  obtain ⟨hBt, -⟩ := List.append_inj hrest (by simp)
  have hadd : s.ptr.tableBase + off = s.ptr.tableBase + headerSize + A.length := by omega
  rw [← hB, hadd, hBt]
  obtain ⟨m', hm'⟩ : ∃ m', m' = writeBytes (writeBytes s.memory
    (s.ptr.tableBase + headerSize + A.length + r.length) B)
    (s.ptr.tableBase + headerSize + A.length) r := ⟨_, rfl⟩
  have hkeep : ∀ a, a < s.ptr.tableBase + off ∨ s.ptr.tableBase + s.ptr.tableLength ≤ a →
      m' a = s.memory a := by
    intro a ha
    rw [hm']
    rcases ha with ha | ha
    · rw [writeBytes_of_lt (by omega), writeBytes_of_lt (by omega)]
    · rw [writeBytes_of_ge (by omega), writeBytes_of_ge (by omega)]
  have hsta : (s.write (s.ptr.tableBase + headerSize + A.length + r.length) B).write
      (s.ptr.tableBase + headerSize + A.length) r = { s with memory := m' } := by
    rw [hm']
    rfl
  rw [hsta]
  have hlive := live_of_sync reserve off (init.take k ++ r :: init.drop k)
    (s := { s with memory := m' }) h.awake h.answers ?_ h.base h.pages ?_ ?_ ?_ h.fits
    h.inSmm (by omega) ?_ ?_
  · dsimp only at hlive
    rw [hadd] at hlive
    obtain ⟨s', hsync, hlive, hmem, hptr, hboot, hpri⟩ := hlive
    refine ⟨s', hsync, hlive, ?_, hptr, hboot, hpri⟩
    intro a hne
    grind
  · intro r' hr'
    refine h.wellFormed r' ?_
    grind
  · refine Eq.trans (bytesAt_congr fun a hle hlt => hkeep a (Or.inl ?_)) h.header
    dsimp only at hlt
    omega
  · dsimp only
    rw [hnew, List.length_append, bytesAt_add]
    congr 1
    · refine Eq.trans (bytesAt_congr fun a hle hlt => hkeep a (Or.inl ?_)) hAt
      omega
    · rw [List.length_append, hm']
      exact bytesAt_writeBytes_insert
  · simp [hnew, List.length_append]
    omega
  · dsimp only
    omega
  · intro hloc
    obtain ⟨box, hbox, hbuf, hboxL, hagr, htot, hter⟩ := h.synced hloc
    refine ⟨box, hbox, hbuf, hboxL, fun i hi hnot => ?_, ?_, ?_⟩
    · grind
    · refine Eq.trans (bytesAt_congr fun a hle hlt => hkeep a (Or.inl ?_)) htot
      dsimp only at hlt
      omega
    · exact Eq.trans (bytesAt_congr fun a hle hlt => hkeep a (Or.inr hle)) hter

end Edk2.BootScript
