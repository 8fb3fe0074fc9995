import Edk2.Ftw.Allocate

/-!
# Runs of the driver

Every service keeps the queue, as long as the allocations have no sum that wraps around and do not
reclaim the work space themselves, and nobody writes to the working block. In such a run a refresh
finds what was allocated exactly when the allocation itself did not reclaim.
-/

namespace Edk2.Ftw

open Bytes Outcome
open Relation (ReflTransGen)

variable {cfg : Config} {s t : FtwDevice} {o header record numberOfWrites privateDataSize : ℕ}
  {ws ws' : Content} {guid : BitVec 128} {status : EfiStatus}
  {Q : EfiStatus → FtwDevice → Prop} {E : Halt → FtwDevice → Prop}

/-- There is a queue in the flash. -/
def HasQueue (cfg : Config) (s : FtwDevice) : Prop := ∃ o, Queue cfg s.flash o

lemma Refreshed.hasQueue (h : Refreshed cfg t) : HasQueue cfg t := ⟨_, h.queue⟩

lemma Queue.congr_of_ge (h : Queue cfg ws o) (heq : ∀ a < o, ws' a = ws a)
    (hlast : Erased ws' o cfg.size ∨ InProgress cfg.size ws' o) : Queue cfg ws' o := by
  have hge := h.completed.ge
  refine ⟨?_, h.completed.congr heq, h.le_size, hlast⟩
  rw [← h.header]
  exact bytesAt_congr fun a _ ha => heq a (by unfold workingBlockHeaderSize at *; omega)

lemma Queue.congr_record (h : Queue cfg ws o) (hlast : InProgress cfg.size ws o)
    (heq : ∀ a, a < o + 40 ∨ o + entrySize ws o ≤ a → ws' a = ws a) :
    Queue cfg ws' o ∧ InProgress cfg.size ws' o ∧ entrySize ws' o = entrySize ws o ∧
      Ftw.privateDataSize ws' o = Ftw.privateDataSize ws o := by
  have hfie : ∀ a, o + 24 ≤ a → a < o + 40 → ws' a = ws a := fun a _ ha => heq a (.inl ha)
  have hsta : ws' o = ws o := heq o (.inl (by omega))
  have hlas' : InProgress cfg.size ws' o := by
    refine hlast.congr ⟨?_, ?_⟩ hfie fun a ha => heq a (.inr ha)
    · unfold headerAllocated
      rw [hsta]
      exact hlast.allocated
    · unfold complete
      rw [hsta]
      exact hlast.not_complete
  exact ⟨h.congr_of_ge (fun a ha => heq a (.inl (by omega))) (.inr hlas'), hlas',
    entrySize_congr hfie, (fields_congr hfie).2⟩

lemma Queue.complete_last (h : Queue cfg ws o) (hlast : InProgress cfg.size ws o)
    (hsta : complete ws' o) (heq : ∀ a, a ≠ o → ws' a = ws a) :
    Completed cfg.size ws' o (o + entrySize ws o) ∧ Queue cfg ws' (o + entrySize ws o) ∧
      Erased ws' (o + entrySize ws o) cfg.size := by
  have hfie : ∀ a, o + 24 ≤ a → a < o + 40 → ws' a = ws a := fun a _ _ => heq a (by omega)
  have hbig := le_entrySize_of_pos hlast.writes_pos
  have hge := h.completed.ge
  have hcom : Completed cfg.size ws' o (o + entrySize ws o) := by
    refine ⟨hsta, ?_, ?_, hlast.le_size⟩
    · rw [(fields_congr hfie).1]
      exact hlast.writes_pos
    · rw [entrySize_congr hfie]
  have hera : Erased ws' (o + entrySize ws o) cfg.size := by
    intro a hle hlt
    rw [heq a (by omega)]
    exact hlast.erased a hle hlt
  refine ⟨hcom, ⟨?_, ?_, hlast.le_size, .inl hera⟩, hera⟩
  · rw [← h.header]
    exact bytesAt_congr fun a _ ha => heq a (by unfold workingBlockHeaderSize at *; omega)
  · exact (h.completed.congr fun a ha => heq a (by omega)).tail hcom

lemma Queue.allocate (h : Queue cfg ws o) (hera : Erased ws o cfg.size)
    (hpos : 0 < numberOfWrites) (hwri : numberOfWrites < 2 ^ 64)
    (hpri : privateDataSize < 2 ^ 64)
    (hroom : o + totalSize numberOfWrites privateDataSize ≤ cfg.size) :
    Queue cfg (allocatedFlash ws o guid privateDataSize numberOfWrites) o ∧
      InProgress cfg.size (allocatedFlash ws o guid privateDataSize numberOfWrites) o := by
  obtain ⟨hn, hp⟩ := @allocatedFlash_fields o numberOfWrites privateDataSize ws guid
  rw [u64_of_lt hwri] at hn
  rw [u64_of_lt hpri] at hp
  have hsize : entrySize (allocatedFlash ws o guid privateDataSize numberOfWrites) o =
      totalSize numberOfWrites privateDataSize := by
    unfold entrySize
    rw [hn, hp]
  have hlast : InProgress cfg.size (allocatedFlash ws o guid privateDataSize numberOfWrites) o := by
    refine ⟨headerAllocated_allocatedFlash, complete_allocatedFlash, by rwa [hn], by rwa [hsize],
      ?_⟩
    rw [hsize]
    intro a hle hlt
    have h40 : 40 ≤ totalSize numberOfWrites privateDataSize := Nat.le_add_right _ _
    rw [allocatedFlash_of_outside (.inr (by omega))]
    exact hera a (by omega) hlt
  exact ⟨h.congr_of_ge (fun a ha => allocatedFlash_of_outside (.inl ha)) (.inr hlast), hlast⟩

/-! ### The services -/

/-- Behind the complete writes there is room for the allocation, or not even for one record: in
that case the refresh reclaims the work space before the allocation looks at it. -/
def Room (cfg : Config) (ws : Content) (numberOfWrites privateDataSize : ℕ) : Prop :=
  ∀ o, Queue cfg ws o → o + 80 ≤ cfg.size →
    o + ftwWriteTotalSize numberOfWrites privateDataSize ≤ cfg.size

/-- The device after an abort: it is refreshed, or its last header was completed. -/
def Settled (cfg : Config) (t : FtwDevice) : Prop :=
  Refreshed cfg t ∨ t.ftwWorkSpace = t.flash ∧
    ∃ o, Completed cfg.size t.flash t.ftwLastWriteHeader o ∧
      Queue cfg t.flash o ∧ Erased t.flash o cfg.size

lemma Settled.hasQueue (h : Settled cfg t) : HasQueue cfg t := by
  rcases h with h | ⟨-, o, -, hq, -⟩
  · exact h.hasQueue
  · exact ⟨o, hq⟩

set_option maxRecDepth 4000 in
lemma setState_complete_eq {b : UInt8} : setState b writesCompletedBit = b &&& 0xFB := by
  apply forall_byte (b := b)
  decide

lemma complete_writeBytes {b : UInt8} :
    complete (writeBytes ws o [setState b writesCompletedBit]) o = true := by
  have hbyte : writeBytes ws o [setState b writesCompletedBit] o =
      setState b writesCompletedBit := writeBytes_of_getElem? le_rfl (by rw [Nat.sub_self]; rfl)
  unfold complete
  rw [hbyte]
  exact valid_setState_complete

lemma writeBytes_singleton_of_ne {a : ℕ} {b : UInt8} (h : a ≠ o) :
    writeBytes ws o [b] a = ws a := by
  grind [List.length_singleton, writeBytes_of_lt, writeBytes_of_ge]

lemma ends_ftwAbort (hsti : cfg.Sticky) (hq : HasQueue cfg s)
    (hQ : ∀ status t, Settled cfg t → Q status t) : Ends (ftwAbort cfg s) Q E := by
  obtain ⟨o, hq⟩ := hq
  unfold ftwAbort
  refine ends_bind (ends_workSpaceRefresh hq fun t ht _ _ => ?_)
  refine ends_ite (fun h => absurd h (by decide)) fun _ => ends_bind (ends_get ?_)
  refine ends_ite (fun _ => ends_pure (hQ _ _ (.inl ht))) fun hall => ?_
  refine ends_ite (fun _ => ends_pure (hQ _ _ (.inl ht))) fun hcom => ?_
  rw [ht.copy] at hall
  have hlast : InProgress cfg.size t.flash t.ftwLastWriteHeader := by
    refine ht.queue.last.resolve_left fun h => hall ?_
    exact (h.last ht.room).2.1
  unfold ftwUpdateFvState
  refine ends_bind (ends_modify (ends_bind (ends_modify (ends_pure (hQ _ _ (.inr ?_))))))
  dsimp only
  rw [writeFlash_setState hsti setState_complete_clears, ht.copy, setState_complete_eq]
  refine ⟨rfl, _, ht.queue.complete_last hlast ?_ fun a ha => writeBytes_singleton_of_ne ha⟩
  rw [← setState_complete_eq]
  exact complete_writeBytes

/-- The last write is in progress, and the record is one of its records. -/
structure Writable (cfg : Config) (s : FtwDevice) (header record : ℕ) : Prop where
  queue : Queue cfg s.flash header
  last : InProgress cfg.size s.flash header
  record_ge : header + 40 ≤ record
  record_le : record + (40 + Ftw.privateDataSize s.flash header) ≤
    header + entrySize s.flash header

lemma Writable.hasQueue (h : Writable cfg s header record) : HasQueue cfg s := ⟨header, h.queue⟩

lemma Writable.congr (h : Writable cfg s header record) (heq : ∀ a, a < record ∨
      record + (40 + Ftw.privateDataSize s.flash header) ≤ a → t.flash a = s.flash a) :
    Writable cfg t header record := by
  obtain ⟨hq, hlast, hge, hle⟩ := h
  obtain ⟨hq', hlas', hsize, hpri⟩ := @Queue.congr_record cfg header s.flash t.flash hq hlast
    fun a ha => heq a (by omega)
  exact ⟨hq', hlas', hge, by rwa [hsize, hpri]⟩

lemma Writable.congr_state (h : Writable cfg s header record)
    (heq : ∀ a, a ≠ record → t.flash a = s.flash a) : Writable cfg t header record :=
  h.congr fun a ha => heq a (by omega)

lemma writeFlash_singleton_of_ne {a : ℕ} {b : UInt8} (h : a ≠ o) :
    writeFlash cfg o [b] ws a = ws a :=
  writeFlash_of_outside (by rw [List.length_singleton]; omega)

lemma ends_ftwWriteRecord (hsti : cfg.Sticky) (hw : Writable cfg s header record)
    {flushed : Bool} (hQ : ∀ status t, HasQueue cfg t → Q status t) :
    Ends (ftwWriteRecord cfg (.other flushed) header record s) Q E := by
  unfold ftwWriteRecord flushSpareBlock
  refine ends_bind (ends_pure ?_)
  refine ends_ite (fun _ => ends_pure (hQ _ _ hw.hasQueue)) fun _ => ?_
  unfold ftwUpdateFvState
  refine ends_bind (ends_modify (ends_bind (ends_modify (ends_bind (ends_get ?_)))))
  dsimp only
  have hw' : Writable cfg { s with
      flash := writeFlash cfg record [setState (s.flash record) destCompletedBit] s.flash }
      header record := hw.congr_state fun a ha => writeFlash_singleton_of_ne ha
  generalize writeFlash cfg record [setState (s.flash record) destCompletedBit] s.flash = flash
    at hw' ⊢
  refine ends_ite (fun _ => ?_) fun _ => ends_pure (hQ _ _ hw'.hasQueue)
  refine ends_bind (ends_modify (ends_bind (ends_modify (ends_pure (hQ _ _ ?_)))))
  dsimp only
  refine ⟨_, (hw'.queue.complete_last hw'.last ?_ fun a ha => writeFlash_singleton_of_ne ha).2.1⟩
  rw [writeFlash_setState hsti setState_complete_clears]
  exact complete_writeBytes

lemma Writable.record_le_size (h : Writable cfg s header record) :
    record + (40 + Ftw.privateDataSize s.flash header) ≤ cfg.size :=
  h.record_le.trans h.last.le_size

lemma ends_writeAt (hsti : cfg.Sticky) {r : WriteRequest} {flushed : Bool}
    (htar : r.target = .other flushed) (hw : Writable cfg s header record)
    (hcopy : Ftw.privateDataSize s.ftwWorkSpace header = Ftw.privateDataSize s.flash header)
    (hQ : ∀ status t, HasQueue cfg t → Q status t) :
    Ends (writeAt cfg r header record s) Q E := by
  have hle := hw.record_le_size
  have hsize := size_lt cfg
  unfold writeAt
  refine ends_ite (fun _ => ends_pure (hQ _ _ hw.hasQueue)) fun _ => ends_bind (ends_get ?_)
  rw [hcopy]
  have hlen : ftwRecordSize (Ftw.privateDataSize s.flash header) =
      40 + Ftw.privateDataSize s.flash header := by
    unfold ftwRecordSize writeRecordSize
    exact u64_of_lt (by omega)
  refine ends_ite (fun h => ?_) fun _ => ?_
  · unfold writeRecordSize at h
    omega
  refine ends_bind (ends_set ?_)
  generalize preparedRecord s.ftwWorkSpace record r _ = copy
  unfold writeWorkSpaceData
  refine ends_bind (ends_bind (ends_get ?_))
  rw [hlen]
  refine ends_ite (fun h => ?_) fun _ => ends_set ?_
  · omega
  dsimp only
  -- the record is written to the flash
  have hw₁ : Writable cfg ⟨writeFlash cfg record (bytesAt copy record
      (40 + Ftw.privateDataSize s.flash header)) s.flash, copy, s.ftwLastWriteHeader,
      s.ftwLastWriteRecord⟩ header record :=
    hw.congr fun a ha => writeFlash_of_outside (by rwa [length_bytesAt])
  generalize writeFlash cfg record (bytesAt copy record
    (40 + Ftw.privateDataSize s.flash header)) s.flash = flash at hw₁ ⊢
  refine ends_ite (fun _ => ends_pure (hQ _ _ hw₁.hasQueue)) fun _ => ?_
  unfold ftwUpdateFvState
  refine ends_bind (ends_modify (ends_bind (ends_modify (ends_bind ?_))))
  rw [htar]
  refine ends_ftwWriteRecord hsti (hw₁.congr_state fun a ha => ?_) fun status t ht => ?_
  · exact writeFlash_singleton_of_ne ha
  · exact ends_ite (fun _ => ends_pure (hQ _ _ ht)) fun _ => ends_pure (hQ _ _ ht)

lemma Refreshed.writable (h : Refreshed cfg t)
    (hlast : InProgress cfg.size t.flash t.ftwLastWriteHeader) :
    Writable cfg t t.ftwLastWriteHeader t.ftwLastWriteRecord :=
  ⟨h.queue, hlast, (h.record_of_inProgress hlast).1, (h.record_of_inProgress hlast).2⟩

lemma isErasedFlashBuffer_of_erased {stop length : ℕ} (h : Erased ws o stop)
    (hle : o + length ≤ stop) : isErasedFlashBuffer ws o length = true := by
  unfold isErasedFlashBuffer
  rw [List.all_eq_true]
  intro b hb
  obtain ⟨i, hi, rfl⟩ := List.mem_map.mp hb
  have hlt := List.mem_range.mp hi
  rw [h (o + i) (by omega) (by omega)]
  decide

lemma isErasedFlashBuffer_of_ne {length : ℕ} (hpos : 0 < length) (h : ws o ≠ 255) :
    isErasedFlashBuffer ws o length = false := by
  unfold isErasedFlashBuffer
  rw [List.all_eq_false]
  refine ⟨ws (o + 0), List.mem_map.mpr ⟨0, List.mem_range.mpr hpos, rfl⟩, ?_⟩
  simpa using h

lemma InProgress.ne_erased {size : ℕ} (h : InProgress size ws o) : ws o ≠ 255 := by
  intro heq
  have := h.allocated
  unfold headerAllocated at this
  rw [heq] at this
  exact absurd this (by decide)

lemma ends_checkLastWrite (hle : record + 40 ≤ cfg.size) (hQ : ∀ status, Q status s) :
    Ends (checkLastWrite cfg header record s) Q E := by
  unfold checkLastWrite
  refine ends_bind (ends_get ?_)
  refine ends_ite (fun _ => ends_pure (hQ _)) fun _ => ?_
  refine ends_ite (fun _ => ends_pure (hQ _)) fun _ => ?_
  refine ends_ite (fun h => absurd h (not_lt.mpr hle)) fun _ => ?_
  refine ends_ite (fun _ => ends_pure (hQ _)) fun _ => ?_
  exact ends_ite (fun _ => ends_pure (hQ _)) fun _ => ends_pure (hQ _)

lemma ends_allocateForWrite (hsti : cfg.Sticky) {r : WriteRequest} (ht : Refreshed cfg t)
    (hfail : ∀ status t', status.isError → HasQueue cfg t' → Q status t')
    (hrea : ∀ t', Writable cfg t' t.ftwLastWriteHeader t.ftwLastWriteRecord →
      Ftw.privateDataSize t'.ftwWorkSpace t.ftwLastWriteHeader =
        Ftw.privateDataSize t'.flash t.ftwLastWriteHeader → Q .success t') :
    Ends (allocateForWrite cfg r t.ftwLastWriteHeader t) Q E := by
  unfold allocateForWrite
  refine ends_bind (ends_get ?_)
  rw [ht.copy]
  rcases ht.queue.last with hera | hlast
  · rw [isErasedFlashBuffer_of_erased hera
      (by have := ht.room; unfold writeHeaderSize; omega), if_pos rfl]
    cases r.privateData with
    | some content => exact ends_pure (hfail _ _ (by decide) ht.hasQueue)
    | none =>
      dsimp only
      have hroom := ht.room
      have hsma : ftwWriteTotalSize 1 0 = 80 := by decide
      refine ends_ftwAllocate hsti ht.queue
        (fun status t' herr ht' => hfail _ _ herr ht'.hasQueue)
        (fun t' ht' hera' hsame htot => ?_) fun t' _ _ hover => by omega
      have hhdr := (hsame hroom).2
      have hrec := ht'.record_of_erased hera'
      rw [hhdr] at hera' htot hrec ⊢
      rw [ht.record_of_erased hera] at hrea
      have hq' : Queue cfg t'.flash t.ftwLastWriteHeader := hhdr ▸ ht'.queue
      obtain ⟨hque, hlast⟩ := @Queue.allocate cfg _ 1 0 _ cfg.callerIdGuid hq' hera'
        one_pos (by decide) (by decide) (by rwa [hsma] at htot)
      obtain ⟨hn, hp⟩ := @allocatedFlash_fields t.ftwLastWriteHeader 1 0 t'.flash cfg.callerIdGuid
      refine hrea _ ⟨hque, hlast, le_rfl, ?_⟩ ?_
      · dsimp only
        unfold entrySize
        rw [hn, hp]
        change _ + (40 + 0) ≤ _ + 80
        omega
      · dsimp only
        rw [hp]
        exact privateDataSize_preparedHeader
  · rw [isErasedFlashBuffer_of_ne (by decide) hlast.ne_erased, if_neg (by decide)]
    exact ends_pure (hrea t (ht.writable hlast) (by rw [ht.copy]))

/-- The block is not one of the working block. -/
def Target.isOther : Target → Prop
  | .workingBlock _ => False
  | .other _ => True

lemma Target.exists_of_isOther {target : Target} (h : target.isOther) :
    ∃ flushed, target = .other flushed := by
  cases target with
  | workingBlock spare => exact absurd h id
  | other flushed => exact ⟨flushed, rfl⟩

lemma ends_ftwWrite (hsti : cfg.Sticky) {r : WriteRequest} (htar : r.target.isOther)
    (hq : HasQueue cfg s) (hQ : ∀ status t, HasQueue cfg t → Q status t) :
    Ends (ftwWrite cfg r s) Q E := by
  obtain ⟨o, hq⟩ := hq
  obtain ⟨flushed, htar⟩ := Target.exists_of_isOther htar
  unfold ftwWrite
  refine ends_bind (ends_workSpaceRefresh hq fun t ht _ _ => ?_)
  refine ends_ite (fun h => absurd h (by decide)) fun _ => ends_bind (ends_get (ends_bind ?_))
  refine ends_allocateForWrite hsti ht (fun status t' herr ht' => ?_) fun t' hw hcopy => ?_
  · exact ends_ite (fun _ => ends_pure (hQ _ _ ht')) fun h => absurd herr h
  · refine ends_ite (fun h => absurd h (by decide)) fun _ => ends_bind ?_
    refine ends_checkLastWrite (by have := hw.record_le_size; omega) fun status => ?_
    refine ends_ite (fun _ => ends_pure (hQ _ _ hw.hasQueue)) fun _ => ?_
    exact ends_writeAt hsti htar hw hcopy hQ

lemma Refreshed.record_le (h : Refreshed cfg t) : t.ftwLastWriteRecord + 40 ≤ cfg.size := by
  have hroom := h.room
  rcases h.queue.last with hera | hlast
  · have := h.record_of_erased hera
    omega
  · have := (h.writable hlast).record_le_size
    omega

lemma ends_ftwRestart (hsti : cfg.Sticky) {blockStatus eraseStatus : EfiStatus}
    {target : Target} (htar : target.isOther) (hq : HasQueue cfg s)
    (hQ : ∀ status t, HasQueue cfg t → Q status t) :
    Ends (ftwRestart cfg blockStatus target eraseStatus s) Q E := by
  obtain ⟨o, hq⟩ := hq
  obtain ⟨flushed, rfl⟩ := Target.exists_of_isOther htar
  unfold ftwRestart
  refine ends_bind (ends_workSpaceRefresh hq fun t ht _ _ => ?_)
  refine ends_ite (fun h => absurd h (by decide)) fun _ => ends_bind (ends_get ?_)
  refine ends_ite (fun _ => ends_pure (hQ _ _ ht.hasQueue)) fun _ => ?_
  refine ends_ite (fun _ => ends_pure (hQ _ _ ht.hasQueue)) fun _ => ?_
  refine ends_ite (fun h => absurd h (not_lt.mpr ht.record_le)) fun _ => ?_
  refine ends_ite (fun _ => ends_pure (hQ _ _ ht.hasQueue)) fun _ => ?_
  refine ends_ite (fun _ => ends_pure (hQ _ _ ht.hasQueue)) fun hspa => ?_
  have hlast : InProgress cfg.size t.flash t.ftwLastWriteHeader := by
    refine ht.queue.last.resolve_left fun hera => hspa ?_
    have hroom := ht.room
    rw [ht.copy, ht.record_of_erased hera]
    unfold spareComplete
    rw [hera _ (by omega) (by omega)]
    exact not_valid_erased (by decide)
  refine ends_bind (ends_ftwWriteRecord hsti (ht.writable hlast) fun status t' ht' => ?_)
  exact ends_ite (fun _ => ends_pure (hQ _ _ ht')) fun _ => ends_pure (hQ _ _ ht')

lemma ends_ftwGetLastWrite (hsti : cfg.Sticky) {privateDataRoom : ℕ} (hq : HasQueue cfg s)
    {Q : EfiStatus × Option LastWrite → FtwDevice → Prop}
    (hQ : ∀ result t, HasQueue cfg t → Q result t) :
    Ends (ftwGetLastWrite cfg privateDataRoom s) Q E := by
  obtain ⟨o, hq⟩ := hq
  unfold ftwGetLastWrite
  refine ends_bind (ends_workSpaceRefresh hq fun t ht _ _ => ?_)
  refine ends_ite (fun h => absurd h (by decide)) fun _ => ends_bind (ends_get ?_)
  have habo : Ends (ftwAbort cfg t) (fun _ t' =>
      Ends ((pure (.notFound, none) : FtwM (EfiStatus × Option LastWrite)) t') Q E) E :=
    ends_ftwAbort hsti ht.hasQueue fun _ t' ht' => ends_pure (hQ _ _ ht'.hasQueue)
  refine ends_ite (fun h => absurd h (not_lt.mpr ht.record_le)) fun _ => ?_
  refine ends_ite (fun _ => ends_bind habo) fun _ => ?_
  refine ends_ite (fun _ => ends_pure (hQ _ _ ht.hasQueue)) fun _ => ?_
  refine ends_ite (fun _ => ends_pure (hQ _ _ ht.hasQueue)) fun _ => ?_
  exact ends_ite (fun _ => ends_bind habo) fun _ => ends_pure (hQ _ _ ht.hasQueue)

section Init

variable {Q : Unit → FtwDevice → Prop}

lemma ends_assertSuccess (hE : ∀ e t, E e t) (hQ : Q () s) : Ends (assertSuccess status s) Q E := by
  unfold assertSuccess
  exact ends_ite (fun _ => ends_throw (hE _ _)) fun _ => ends_pure hQ

lemma ends_abortFirstRecord (hsti : cfg.Sticky) (hs : Settled cfg s)
    (hQ : ∀ t, Settled cfg t → Q () t) : Ends (abortFirstRecord cfg s) Q E := by
  unfold abortFirstRecord
  refine ends_bind (ends_get (ends_ite (fun _ => ends_bind ?_) fun _ => ends_pure (hQ _ hs)))
  exact ends_ftwAbort hsti hs.hasQueue fun _ t ht => ends_pure (hQ _ ht)

lemma ends_abortLastRecord (hsti : cfg.Sticky) (hs : Settled cfg s)
    (hQ : ∀ t, Settled cfg t → Q () t) : Ends (abortLastRecord cfg s) Q E := by
  unfold abortLastRecord
  refine ends_bind (ends_get (ends_ite (fun _ => ends_bind ?_) fun _ => ends_pure (hQ _ hs)))
  exact ends_ftwAbort hsti hs.hasQueue fun _ t ht => ends_pure (hQ _ ht)

lemma Settled.erased_behind (h : Settled cfg t) :
    t.ftwWorkSpace t.ftwLastWriteHeader = 255 ∧
        Erased t.ftwWorkSpace t.ftwLastWriteHeader cfg.size ∧ t.ftwLastWriteHeader ≤ cfg.size ∨
      t.ftwWorkSpace t.ftwLastWriteHeader ≠ 255 ∧
        t.ftwLastWriteHeader + entrySize t.ftwWorkSpace t.ftwLastWriteHeader ≤ cfg.size ∧
        Erased t.ftwWorkSpace
          (t.ftwLastWriteHeader + entrySize t.ftwWorkSpace t.ftwLastWriteHeader) cfg.size := by
  rcases h with h | ⟨hcopy, o, hcom, hq, hera⟩
  · rw [h.copy]
    have hroom := h.room
    rcases h.queue.last with hera | hlast
    · exact .inl ⟨hera _ le_rfl (by omega), hera, h.queue.le_size⟩
    · exact .inr ⟨hlast.ne_erased, hlast.le_size, hlast.erased⟩
  · rw [hcopy]
    refine .inr ⟨fun heq => ?_, ?_, ?_⟩
    · have hcomp := hcom.complete
      unfold complete at hcomp
      rw [heq] at hcomp
      exact absurd hcomp (by decide)
    · rw [← hcom.next]
      exact hcom.le_size
    · rwa [← hcom.next]

lemma ends_reclaimGarbage (hs : Settled cfg s) (hQ : Q () s) : Ends (reclaimGarbage cfg s) Q E := by
  have hlt := size_lt cfg
  unfold reclaimGarbage
  refine ends_bind (ends_get ?_)
  dsimp only
  rcases hs.erased_behind with ⟨hbyte, hera, hle⟩ | ⟨hbyte, hle, hera⟩
  · rw [if_neg (not_not.mpr hbyte)]
    refine ends_ite (fun h => absurd h (not_lt.mpr hle)) fun _ => ?_
    grind [isErasedFlashBuffer_of_erased, ends_pure]
  · rw [if_pos hbyte, headerTotalSize_of_lt (by omega), u64_of_lt (by omega)]
    refine ends_ite (fun h => absurd h (not_lt.mpr hle)) fun _ => ?_
    grind [isErasedFlashBuffer_of_erased, ends_pure]

/-- No block of the working block is restarted. -/
def InitRequest.isOther (r : InitRequest) : Prop :=
  ∀ blockStatus target eraseStatus, r.block = some (blockStatus, target, eraseStatus) →
    target.isOther

lemma ends_restartUnfinished (hsti : cfg.Sticky) (hE : ∀ e t, E e t) {r : InitRequest}
    (hr : r.isOther) (hs : HasQueue cfg s) (hQ : ∀ t, HasQueue cfg t → Q () t) :
    Ends (restartUnfinished cfg r s) Q E := by
  have habo : ∀ t, HasQueue cfg t →
      Ends (ftwAbort cfg t) (fun _ t' => Ends ((pure () : FtwM Unit) t') Q E) E :=
    fun t ht => ends_ftwAbort hsti ht fun _ t' ht' => ends_pure (hQ _ ht'.hasQueue)
  unfold restartUnfinished
  refine ends_bind (ends_get (ends_ite (fun _ => ?_) fun _ => ends_pure (hQ _ hs)))
  refine ends_ite (fun _ => ?_) fun _ => ?_
  · exact ends_bind (ends_assertSuccess hE (ends_bind (habo s hs)))
  · cases hblo : r.block with
    | none => exact ends_bind (habo s hs)
    | some block =>
      obtain ⟨blockStatus, target, eraseStatus⟩ := block
      refine ends_bind ?_
      refine ends_ftwRestart hsti (hr _ _ _ hblo) hs fun status t ht => ?_
      exact ends_bind (ends_assertSuccess hE (ends_bind (habo t ht)))

end Init

lemma ends_initFtwProtocol (hsti : cfg.Sticky) (hE : ∀ e t, E e t) {r : InitRequest}
    (hr : r.isOther) (hs : HasQueue cfg s) (hQ : ∀ t, HasQueue cfg t → Q .success t) :
    Ends (initFtwProtocol cfg r s) Q E := by
  obtain ⟨o, hq⟩ := hs
  unfold initFtwProtocol
  refine ends_bind (ends_workSpaceRefresh hq fun t ht _ _ => ?_)
  refine ends_bind (ends_assertSuccess hE (ends_bind (ends_get ?_)))
  have hval : isValidWorkSpace cfg t.ftwWorkSpace = true := by
    rw [ht.copy]
    exact decide_eq_true ht.queue.header
  rw [hval, if_neg (by decide)]
  refine ends_bind ?_
  refine ends_abortFirstRecord hsti (.inl ht) fun t₁ ht₁ => ends_bind ?_
  refine ends_abortLastRecord hsti ht₁ fun t₂ ht₂ => ends_bind ?_
  refine ends_reclaimGarbage ht₂ (ends_bind ?_)
  exact ends_restartUnfinished hsti hE hr ht₂.hasQueue fun t₃ ht₃ => ends_pure (hQ _ ht₃)

/-! ### Runs -/

/-- A call of the driver, or its start. -/
inductive Call
  | init (r : InitRequest)
  | refresh
  | allocate (guid : BitVec 128) (privateDataSize numberOfWrites : ℕ)
  | write (r : WriteRequest)
  | restart (blockStatus : EfiStatus) (target : Target) (eraseStatus : EfiStatus)
  | abort
  | getLastWrite (privateDataRoom : ℕ)

def Call.run (cfg : Config) : Call → FtwM EfiStatus
  | .init r => initFtwProtocol cfg r
  | .refresh => workSpaceRefresh cfg
  | .allocate guid privateDataSize numberOfWrites =>
    ftwAllocate cfg guid privateDataSize numberOfWrites
  | .write r => ftwWrite cfg r
  | .restart blockStatus target eraseStatus => ftwRestart cfg blockStatus target eraseStatus
  | .abort => ftwAbort cfg
  | .getLastWrite privateDataRoom => do
    let (status, _) ← ftwGetLastWrite cfg privateDataRoom
    return status

/-- The condition on a call: an allocation asks for a write at least, its size does not wrap around,
and it does not reclaim the work space; what is written is not in the working block. -/
def Call.Meets (cfg : Config) (s : FtwDevice) : Call → Prop
  | .init r => r.isOther
  | .refresh => True
  | .allocate _ privateDataSize numberOfWrites =>
    0 < numberOfWrites ∧ totalSize numberOfWrites privateDataSize < 2 ^ 64 ∧
      Room cfg s.flash numberOfWrites privateDataSize
  | .write r => r.target.isOther
  | .restart _ target _ => target.isOther
  | .abort => True
  | .getLastWrite _ => True

/-- The devices that the driver comes to from a work space without writes. -/
inductive Reachable (cfg : Config) : FtwDevice → Prop
  | blank : Reachable cfg ⟨blank cfg, blank cfg, workingBlockHeaderSize, workingBlockHeaderSize⟩
  | call {s t : FtwDevice} {call : Call} {status : EfiStatus} (h : Reachable cfg s)
    (hmeets : call.Meets cfg s) (hrun : call.run cfg s = .ok status t) : Reachable cfg t

lemma lt_of_totalSize_lt (hpos : 0 < numberOfWrites)
    (h : totalSize numberOfWrites privateDataSize < 2 ^ 64) :
    numberOfWrites < 2 ^ 64 ∧ privateDataSize < 2 ^ 64 := by
  have hn := Nat.le_mul_of_pos_left (writeRecordSize + privateDataSize) hpos
  have hp := Nat.le_mul_of_pos_right numberOfWrites
    (show 0 < writeRecordSize + privateDataSize by unfold writeRecordSize; omega)
  unfold totalSize writeHeaderSize writeRecordSize at *
  omega

lemma ends_call (hsti : cfg.Sticky) {call : Call} (hmee : call.Meets cfg s)
    (hs : HasQueue cfg s) :
    Ends (call.run cfg s) (fun _ t => HasQueue cfg t) fun _ _ => True := by
  cases call with
  | init r => exact ends_initFtwProtocol hsti (fun _ _ => trivial) hmee hs fun _ ht => ht
  | refresh =>
    obtain ⟨o, hq⟩ := hs
    exact ends_workSpaceRefresh hq fun _ ht _ _ => ht.hasQueue
  | allocate guid privateDataSize numberOfWrites =>
    obtain ⟨o, hq⟩ := hs
    obtain ⟨hpos, htot, hroom⟩ := hmee
    obtain ⟨hn, hp⟩ := lt_of_totalSize_lt hpos htot
    have hsize : ftwWriteTotalSize numberOfWrites privateDataSize =
        totalSize numberOfWrites privateDataSize := u64_of_lt htot
    refine ends_ftwAllocate hsti hq (fun _ t _ ht => ht.hasQueue)
      (fun t ht hera _ hle => ?_) fun t hsma _ hover _ => ?_
    · rw [hsize] at hle
      exact ⟨_, (ht.queue.allocate hera hpos hn hp hle).1⟩
    · exact absurd (hroom o hq hsma) (not_le.mpr hover)
  | write r => exact ends_ftwWrite hsti hmee hs fun _ _ ht => ht
  | restart blockStatus target eraseStatus =>
    exact ends_ftwRestart hsti hmee hs fun _ _ ht => ht
  | abort => exact ends_ftwAbort hsti hs fun _ _ ht => ht.hasQueue
  | getLastWrite privateDataRoom =>
    refine ends_bind (ends_ftwGetLastWrite hsti hs fun result t ht => ?_)
    exact ends_pure ht

lemma hasQueue_of_reachable (hsti : cfg.Sticky) (h : Reachable cfg s) : HasQueue cfg s := by
  induction h with
  | blank => exact ⟨_, queue_blank⟩
  | call _ hmee hrun ih => exact (ends_call hsti hmee ih).of_ok hrun

/-- A refresh finds the allocated write. -/
def Finds (cfg : Config) (guid : BitVec 128) (privateDataSize numberOfWrites : ℕ)
    (s : FtwDevice) : Prop :=
  Ends (workSpaceRefresh cfg s) (fun status t => status = .success ∧
      callerId t.ftwWorkSpace t.ftwLastWriteHeader = field 16 guid.toNat ∧
      Ftw.numberOfWrites t.ftwWorkSpace t.ftwLastWriteHeader = numberOfWrites ∧
      Ftw.privateDataSize t.ftwWorkSpace t.ftwLastWriteHeader = privateDataSize ∧
      headerAllocated t.ftwWorkSpace t.ftwLastWriteHeader ∧
      writesAllocated t.ftwWorkSpace t.ftwLastWriteHeader ∧
      complete t.ftwWorkSpace t.ftwLastWriteHeader = false ∧
      t.ftwLastWriteHeader + writeHeaderSize ≤ cfg.size)
    fun _ _ => False

lemma finds_allocatedFlash (hq : Queue cfg ws o) (hera : Erased ws o cfg.size)
    (hroom : o + 80 ≤ cfg.size) (hn : numberOfWrites < 2 ^ 64) (hp : privateDataSize < 2 ^ 64)
    (hfla : s.flash = allocatedFlash ws o guid privateDataSize numberOfWrites) :
    Finds cfg guid privateDataSize numberOfWrites s := by
  have hdone : CompletedUpTo cfg.size s.flash o := by
    rw [hfla]
    exact hq.completed.congr fun a ha => allocatedFlash_of_outside (.inl ha)
  have hdest : destinationComplete s.flash (o + 40) = false := by
    unfold destinationComplete
    rw [hfla, allocatedFlash_of_outside (.inr le_rfl), hera _ (by omega) (by omega)]
    exact not_valid_erased (by decide)
  obtain ⟨record, hrec, -⟩ := exists_lastWriteRecord hroom hdest
  have hcom : complete s.flash o = false := by
    rw [hfla]
    exact complete_allocatedFlash
  refine ends_workSpaceRefresh_found hdone hcom hroom hrec ?_
  obtain ⟨hwri, hpri⟩ := @allocatedFlash_fields o numberOfWrites privateDataSize ws guid
  dsimp only
  rw [hfla]
  refine ⟨rfl, callerId_allocatedFlash, ?_, ?_, headerAllocated_allocatedFlash,
    writesAllocated_allocatedFlash, complete_allocatedFlash, ?_⟩
  · rw [hwri, u64_of_lt hn]
  · rw [hpri, u64_of_lt hp]
  · unfold writeHeaderSize
    omega

lemma not_finds_stale (hge : 112 ≤ o) (hsta : ∀ a < o, s.flash a = blank cfg a) :
    ¬ Finds cfg guid privateDataSize numberOfWrites s := by
  intro hfin
  have hroom : workingBlockHeaderSize + 80 ≤ cfg.size := cfg.size_ge
  have hera : Erased s.flash workingBlockHeaderSize 112 := by
    intro a hle hlt
    rw [hsta a (by omega)]
    exact blank_of_ge hle
  obtain ⟨hcom, hfree, -, -⟩ := hera.last le_rfl
  have hdest : destinationComplete s.flash (workingBlockHeaderSize + 40) = false := by
    unfold destinationComplete
    rw [hera _ (by unfold workingBlockHeaderSize; omega) (by unfold workingBlockHeaderSize; omega)]
    exact not_valid_erased (by decide)
  obtain ⟨record, hrec, -⟩ := exists_lastWriteRecord hroom hdest
  have hemp : Ends (workSpaceRefresh cfg s)
      (fun _ t => headerAllocated t.ftwWorkSpace t.ftwLastWriteHeader = false) fun _ _ => False :=
    ends_workSpaceRefresh_found .refl hcom hroom hrec hfree
  unfold Finds at hfin
  cases hrun : workSpaceRefresh cfg s with
  | error e t => exact hemp.of_error hrun
  | ok status t =>
    obtain ⟨-, -, -, -, hall, -⟩ := hfin.of_ok hrun
    rw [hemp.of_ok hrun] at hall
    exact absurd hall (by decide)

lemma Queue.unique {o' : ℕ} (h : Queue cfg ws o) (h' : Queue cfg ws o') : o = o' := by
  -- the last write of a queue is not complete
  have hends : ∀ {a b}, Queue cfg ws a → ReflTransGen (Completed cfg.size ws) a b → a = b := by
    intro a b ha hab
    rcases ReflTransGen.cases_head hab with heq | ⟨c, hc, -⟩
    · exact heq
    · rcases ha.last with hera | hlast
      · have hroom := hc.lt.trans hc.le_size
        have := (hera.last hroom).1
        rw [hc.complete] at this
        exact absurd this (by decide)
      · have := hlast.not_complete
        rw [hc.complete] at this
        exact absurd this (by decide)
  have huni : Relator.RightUnique (Completed cfg.size ws) := fun a b c hb hc =>
    hb.next.trans hc.next.symm
  rcases h.completed.total_of_right_unique huni h'.completed with hab | hba
  · exact hends h hab
  · exact (hends h' hba).symm

/-- In every run whose calls meet the condition, an allocation that succeeds is found by the next
refresh exactly when it meets the condition on the room itself. -/
theorem finds_ftwAllocate_iff (cfg : Config) (hsticky : cfg.Sticky) (s t : FtwDevice)
    (hs : Reachable cfg s) (guid : BitVec 128) (privateDataSize numberOfWrites : ℕ)
    (hp : privateDataSize < 2 ^ 64) (hn : numberOfWrites < 2 ^ 64)
    (hrun : ftwAllocate cfg guid privateDataSize numberOfWrites s = .ok .success t) :
    Finds cfg guid privateDataSize numberOfWrites t ↔
      Room cfg s.flash numberOfWrites privateDataSize := by
  obtain ⟨o, hq⟩ := hasQueue_of_reachable hsticky hs
  have hcases : Ends (ftwAllocate cfg guid privateDataSize numberOfWrites s)
      (fun status t => status = .success → (Finds cfg guid privateDataSize numberOfWrites t ↔
        Room cfg s.flash numberOfWrites privateDataSize)) fun _ _ => True := by
    refine ends_ftwAllocate hsticky hq (fun status t herr _ heq => ?_)
      (fun t ht herased hsame hle _ => iff_of_true ?_ ?_) fun t hsmall hge hover hstale _ =>
        iff_of_false (not_finds_stale hge hstale) fun hroom => ?_
    · rw [heq] at herr
      exact absurd herr (by decide)
    · exact finds_allocatedFlash ht.queue herased ht.room hn hp rfl
    · intro o' hq' hroom
      obtain rfl := hq.unique hq'
      rwa [(hsame hroom).2] at hle
    · exact absurd (hroom o hq hsmall) (not_le.mpr hover)
  exact hcases.of_ok hrun rfl

/-- A work space of 192 bytes in a flash that clears bits. -/
def smallConfig : Config := ⟨192, by decide, by decide, 0, 0, (· &&& ·)⟩

def smallDevice : FtwDevice :=
  ⟨blank smallConfig, blank smallConfig, workingBlockHeaderSize, workingBlockHeaderSize⟩

lemma sticky_smallConfig : smallConfig.Sticky := fun _ _ h => h

lemma room_small : Room smallConfig smallDevice.flash 1 0 := by
  intro o hq _
  rw [hq.unique queue_blank]
  decide

theorem finds_ftwAllocate_small : ∃ t, ftwAllocate smallConfig 7 0 1 smallDevice = .ok .success t ∧
    (Finds smallConfig 7 0 1 t ↔ Room smallConfig smallDevice.flash 1 0) := by
  have hreturns : returns (fun status _ => status = .success)
      (ftwAllocate smallConfig 7 0 1 smallDevice) = true := by
    decide
  obtain ⟨status, t, hrun, hsuccess⟩ := exists_of_returns hreturns
  obtain rfl := of_decide_eq_true hsuccess
  exact ⟨t, hrun, finds_ftwAllocate_iff smallConfig sticky_smallConfig _ t .blank 7 0 1 (by decide)
    (by decide) hrun⟩

/-- Behind an aborted write of 80 bytes there are 80 bytes left. An allocation of 81 bytes reclaims
the work space, succeeds and is not found. -/
theorem not_finds_reclaimed : ∃ s t, Reachable smallConfig s ∧
    ftwAllocate smallConfig 7 1 1 s = .ok .success t ∧ ¬ Finds smallConfig 7 1 1 t := by
  have hreturns : returns (fun result t => result.1 = .success ∧ result.2 = .success ∧
      headerAllocated t.ftwWorkSpace t.ftwLastWriteHeader = false)
      ((do
        let _ ← ftwAllocate smallConfig 7 0 1
        let _ ← ftwAbort smallConfig
        let allocated ← ftwAllocate smallConfig 7 1 1
        let refreshed ← workSpaceRefresh smallConfig
        return (allocated, refreshed)) smallDevice) = true := by
    decide
  obtain ⟨result, t₄, hrun, htest⟩ := exists_of_returns hreturns
  obtain ⟨hallocated, hrefreshed, hfree⟩ := of_decide_eq_true htest
  obtain ⟨_, s₁, hrun₁, hrun⟩ := bind_eq_ok.mp hrun
  obtain ⟨_, s₂, hrun₂, hrun⟩ := bind_eq_ok.mp hrun
  obtain ⟨_, s₃, hrun₃, hrun⟩ := bind_eq_ok.mp hrun
  obtain ⟨_, s₄, hrun₄, hrun⟩ := bind_eq_ok.mp hrun
  obtain ⟨hresult, rfl⟩ := pure_eq_ok.mp hrun
  subst hresult
  dsimp only at hallocated hrefreshed
  subst hallocated
  have hfirst : Reachable smallConfig s₁ :=
    @Reachable.call _ _ _ (.allocate 7 0 1) _ .blank ⟨by decide, by decide, room_small⟩ hrun₁
  refine ⟨s₂, s₃, @Reachable.call _ _ _ .abort _ hfirst trivial hrun₂, hrun₃, fun hfinds => ?_⟩
  unfold Finds at hfinds
  obtain ⟨-, -, -, -, hallocated, -⟩ := hfinds.of_ok hrun₄
  grind

end Edk2.Ftw
