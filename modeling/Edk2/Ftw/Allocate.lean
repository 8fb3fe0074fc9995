import Edk2.Ftw.Queue

/-!
# Refresh and allocation

On a queue `WorkSpaceRefresh` finds the last write, after a reclaim if there is no room for another
one. `FtwAllocate` then writes its header to the place that was found before a reclaim of its own.
-/

namespace Edk2.Ftw

open Bytes Outcome

variable {cfg : Config} {s t : FtwDevice} {o header record numberOfWrites privateDataSize : ℕ}
  {ws : Content} {guid : BitVec 128} {status : EfiStatus}
  {Q : EfiStatus → FtwDevice → Prop} {E : Halt → FtwDevice → Prop}

/-- A work space without writes. -/
def blank (cfg : Config) : Content :=
  writeBytes (fun _ => ftwErasedByte) 0 (mWorkingBlockHeader cfg)

lemma length_mWorkingBlockHeader : (mWorkingBlockHeader cfg).length = workingBlockHeaderSize := by
  simp [mWorkingBlockHeader]

lemma blank_of_ge {a : ℕ} (h : workingBlockHeaderSize ≤ a) : blank cfg a = 255 :=
  writeBytes_of_ge (by rwa [length_mWorkingBlockHeader, Nat.zero_add])

lemma header_blank : bytesAt (blank cfg) 0 workingBlockHeaderSize = mWorkingBlockHeader cfg := by
  rw [← @length_mWorkingBlockHeader cfg]
  exact bytesAt_writeBytes_self

lemma erased_blank {stop : ℕ} : Erased (blank cfg) workingBlockHeaderSize stop :=
  fun _ hle _ => blank_of_ge hle

lemma queue_blank : Queue cfg (blank cfg) workingBlockHeaderSize := by
  have := cfg.size_ge
  exact ⟨header_blank, .refl, by unfold workingBlockHeaderSize at *; omega, .inl erased_blank⟩

lemma not_valid_erased {bit : UInt8} (hbit : bit ≠ 0) : valid 255 bit = false := by
  unfold valid
  rw [erased_and]
  exact decide_eq_false hbit

lemma Erased.uint64At {stop a : ℕ} (h : Erased ws o stop) (hle : o ≤ a) (hlt : a + 8 ≤ stop) :
    uint64At ws a = 2 ^ 64 - 1 := by
  have hbyt : bytesAt ws a 8 = List.replicate 8 255 := by
    apply List.ext_getElem?
    intro i
    rw [getElem?_bytesAt, List.getElem?_replicate]
    split_ifs with hi
    · rw [h (a + i) (by omega) (by omega)]
    · rfl
  unfold Ftw.uint64At
  rw [hbyt]
  decide

lemma Erased.last {size : ℕ} (h : Erased ws o size) (hroom : o + 80 ≤ size) :
    complete ws o = false ∧ headerAllocated ws o = false ∧ writesAllocated ws o = false ∧
      ftwGetLastWriteRecord size ws o = .ok (.success, o + 40) := by
  have hbyte : ws o = 255 := h o le_rfl (by omega)
  refine ⟨?_, ?_, ?_, ?_⟩
  · grind [complete, not_valid_erased]
  · grind [headerAllocated, not_valid_erased]
  · grind [writesAllocated, not_valid_erased]
  · have hdest : destinationComplete ws (o + 40) = false := by
      unfold destinationComplete
      rw [h (o + 40) (by omega) (by omega)]
      exact not_valid_erased (by decide)
    obtain ⟨record, heq, hrec⟩ := exists_lastWriteRecord hroom hdest
    rw [heq, hrec]
    unfold Ftw.numberOfWrites
    rw [h.uint64At (by omega) (by omega)]
    decide

/-! ### `WorkSpaceRefresh` -/

lemma ends_refreshLastWriteHeader (h : ftwGetLastWriteHeader cfg.size s.ftwWorkSpace =
      .ok (status, header)) (hQ : Q status { s with ftwLastWriteHeader := header }) :
    Ends (refreshLastWriteHeader cfg s) Q E := by
  unfold refreshLastWriteHeader
  refine ends_bind (ends_get ?_)
  rw [h]
  exact ends_bind (ends_pure (ends_bind (ends_set (ends_pure hQ))))

lemma ends_refreshLastWriteRecord (h : ftwGetLastWriteRecord cfg.size s.ftwWorkSpace
      s.ftwLastWriteHeader = .ok (status, record))
    (hQ : Q status { s with ftwLastWriteRecord := record }) :
    Ends (refreshLastWriteRecord cfg s) Q E := by
  unfold refreshLastWriteRecord
  refine ends_bind (ends_get ?_)
  rw [h]
  exact ends_bind (ends_pure (ends_bind (ends_set (ends_pure hQ))))

lemma ends_workSpaceRefresh_found (hdone : CompletedUpTo cfg.size s.flash o)
    (hlast : complete s.flash o = false) (hroom : o + 80 ≤ cfg.size)
    (hrec : ftwGetLastWriteRecord cfg.size s.flash o = .ok (.success, record))
    (hQ : Q .success ⟨s.flash, s.flash, o, record⟩) : Ends (workSpaceRefresh cfg s) Q E := by
  have hhdr := ftwGetLastWriteHeader_eq hdone (size_lt cfg) (by omega) hlast
  unfold workSpaceRefresh
  refine ends_bind (ends_modify (ends_bind (ends_refreshLastWriteHeader hhdr ?_)))
  refine ends_bind (ends_get ?_)
  refine ends_ite (fun h => absurd h ?_) fun _ => ?_
  · unfold writeHeaderSize writeRecordSize
    rintro (herr | hlt)
    · exact absurd herr (by decide)
    · dsimp only at hlt
      omega
  · refine ends_bind (ends_refreshLastWriteRecord hrec ?_)
    exact ends_ite (fun h => absurd h (by decide)) fun _ => ends_pure hQ

lemma ends_ftwReclaimWorkSpace
    (hcopy : bytesAt s.ftwWorkSpace 0 workingBlockHeaderSize = mWorkingBlockHeader cfg)
    (hsea : ftwGetLastWriteHeader cfg.size s.ftwWorkSpace = .ok (status, header))
    (hnone : status.isError = true ∨ headerAllocated s.ftwWorkSpace header = false)
    (hQ : ∀ ws, Q .success ⟨blank cfg, ws, workingBlockHeaderSize, workingBlockHeaderSize + 40⟩) :
    Ends (ftwReclaimWorkSpace cfg true s) Q E := by
  have hge := cfg.size_ge
  have hroom : workingBlockHeaderSize + 80 ≤ cfg.size := hge
  obtain ⟨hcom, -, -, hrec⟩ := @Erased.last _ (blank cfg) _ erased_blank hroom
  have hhdr := ftwGetLastWriteHeader_eq (@queue_blank cfg).completed (size_lt cfg) (by omega) hcom
  unfold ftwReclaimWorkSpace
  rw [if_pos rfl]
  -- nothing is preserved
  have hpre : ∀ Q' : List UInt8 → FtwDevice → Prop,
      Q' [] { s with ftwLastWriteHeader := header } → Ends (preservedRecord cfg s) Q' E := by
    intro Q' hQ'
    unfold preservedRecord
    refine ends_bind (ends_refreshLastWriteHeader hsea (ends_bind (ends_get ?_)))
    refine ends_ite (fun _ => ends_pure hQ') fun h => absurd ?_ h
    rcases hnone with herr | hfree
    · exact .inl herr
    · exact .inr (.inr hfree)
  have hnew : writeBytes (writeBytes (fun _ => ftwErasedByte) 0
      (bytesAt s.ftwWorkSpace 0 workingBlockHeaderSize)) workingBlockHeaderSize [] = blank cfg := by
    rw [hcopy, writeBytes_nil]
    rfl
  refine ends_bind (hpre _ (ends_bind (ends_modify ?_)))
  dsimp only
  rw [hnew]
  refine ends_bind (ends_refreshLastWriteHeader hhdr ?_)
  refine ends_bind (ends_refreshLastWriteRecord hrec (ends_bind (ends_modify ?_)))
  dsimp only
  rw [show writeBytes (blank cfg) 0 (mWorkingBlockHeader cfg) = blank cfg from
    writeBytes_eq_self (by rw [length_mWorkingBlockHeader]; exact header_blank)]
  exact ends_pure (hQ _)

lemma ends_workSpaceRefresh_full (hq : Queue cfg s.flash o) (hera : Erased s.flash o cfg.size)
    (hfull : cfg.size < o + 80) (hQ : Q .success
      ⟨blank cfg, blank cfg, workingBlockHeaderSize, workingBlockHeaderSize + 40⟩) :
    Ends (workSpaceRefresh cfg s) Q E := by
  have hge : workingBlockHeaderSize + 80 ≤ cfg.size := cfg.size_ge
  obtain ⟨hcom, -, -, hrec⟩ := @Erased.last _ (blank cfg) _ erased_blank hge
  have hhdr := ftwGetLastWriteHeader_eq (@queue_blank cfg).completed (size_lt cfg) (by omega) hcom
  -- the search finds an erased header, or nothing
  have hsea : ∃ status header, ftwGetLastWriteHeader cfg.size s.flash = .ok (status, header) ∧
      (status.isError = true ∨ header = o ∧ headerAllocated s.flash o = false) := by
    rcases Nat.lt_or_eq_of_le hq.le_size with hlt | rfl
    · have hbyte := hera o le_rfl hlt
      refine ⟨_, _, ftwGetLastWriteHeader_eq hq.completed (size_lt cfg) hlt ?_, .inr ⟨rfl, ?_⟩⟩
      · unfold complete
        rw [hbyte]
        exact not_valid_erased (by decide)
      · unfold headerAllocated
        rw [hbyte]
        exact not_valid_erased (by decide)
    · obtain ⟨header, heq⟩ := ftwGetLastWriteHeader_full hq.completed (size_lt cfg) (by omega)
      exact ⟨_, _, heq, .inl (by decide)⟩
  obtain ⟨status, header, hsea, hnone⟩ := hsea
  have hnon' : status.isError = true ∨ headerAllocated s.flash header = false := by
    grind
  unfold workSpaceRefresh
  refine ends_bind (ends_modify (ends_bind (ends_refreshLastWriteHeader hsea ?_)))
  refine ends_bind (ends_get (ends_ite (fun _ => ?_) fun h => absurd ?_ h))
  · refine ends_bind (ends_ftwReclaimWorkSpace hq.header hsea hnon' fun ws => ?_)
    refine ends_ite (fun h => absurd h (by decide)) fun _ => ?_
    refine ends_bind (ends_modify (ends_bind (ends_refreshLastWriteHeader hhdr ?_)))
    refine ends_ite (fun h => absurd h (by decide)) fun _ => ?_
    refine ends_bind (ends_refreshLastWriteRecord hrec ?_)
    exact ends_ite (fun h => absurd h (by decide)) fun _ => ends_pure hQ
  grind

/-- The device after a refresh: the last write has room for a record. -/
structure Refreshed (cfg : Config) (t : FtwDevice) : Prop where
  copy : t.ftwWorkSpace = t.flash
  queue : Queue cfg t.flash t.ftwLastWriteHeader
  room : t.ftwLastWriteHeader + 80 ≤ cfg.size
  record_of_erased : Erased t.flash t.ftwLastWriteHeader cfg.size →
    t.ftwLastWriteRecord = t.ftwLastWriteHeader + 40
  record_of_inProgress : InProgress cfg.size t.flash t.ftwLastWriteHeader →
    t.ftwLastWriteHeader + 40 ≤ t.ftwLastWriteRecord ∧
      t.ftwLastWriteRecord + (40 + Ftw.privateDataSize t.flash t.ftwLastWriteHeader) ≤
        t.ftwLastWriteHeader + entrySize t.flash t.ftwLastWriteHeader

lemma ends_workSpaceRefresh (hq : Queue cfg s.flash o)
    (hQ : ∀ t, Refreshed cfg t →
      (o + 80 ≤ cfg.size → t.flash = s.flash ∧ t.ftwLastWriteHeader = o) →
      (cfg.size < o + 80 → t.flash = blank cfg ∧ t.ftwLastWriteHeader = workingBlockHeaderSize) →
      Q .success t) : Ends (workSpaceRefresh cfg s) Q E := by
  have hge : workingBlockHeaderSize + 80 ≤ cfg.size := cfg.size_ge
  rcases hq.last with hera | hpro
  · by_cases hroom : o + 80 ≤ cfg.size
    · obtain ⟨hcom, hfree, -, hrec⟩ := hera.last hroom
      refine ends_workSpaceRefresh_found hq.completed hcom hroom hrec (hQ _ ?_ ?_ ?_)
      · refine ⟨rfl, hq, hroom, fun _ => rfl, fun h => ?_⟩
        have := h.allocated
        grind
      · exact fun _ => ⟨rfl, rfl⟩
      · omega
    · refine ends_workSpaceRefresh_full hq hera (not_le.mp hroom) (hQ _ ?_ ?_ ?_)
      · refine ⟨rfl, queue_blank, hge, fun _ => rfl, fun h => ?_⟩
        have hall := h.allocated
        dsimp only at hall
        rw [(@Erased.last _ (blank cfg) _ erased_blank hge).2.1] at hall
        exact absurd hall (by decide)
      · exact fun h => absurd h hroom
      · exact fun _ => ⟨rfl, rfl⟩
  · have hroom : o + 80 ≤ cfg.size := by
      have := le_entrySize_of_pos hpro.writes_pos
      have := hpro.le_size
      omega
    obtain ⟨record, hrec, hge', hle'⟩ := hpro.exists_lastWriteRecord (size_lt cfg)
    refine ends_workSpaceRefresh_found hq.completed hpro.not_complete hroom hrec (hQ _ ?_ ?_ ?_)
    · refine ⟨rfl, hq, hroom, fun h => ?_, fun _ => ⟨hge', hle'⟩⟩
      have hfree := (Erased.last h hroom).2.1
      dsimp only at hfree
      rw [hpro.allocated] at hfree
      exact absurd hfree (by decide)
    · exact fun _ => ⟨rfl, rfl⟩
    · omega

/-! ### `FtwAllocate` -/

lemma writeBytes_bytesAt {d d' : Content} {start size : ℕ}
    (h : ∀ a, a < start ∨ start + size ≤ a → d' a = d a) :
    writeBytes d start (bytesAt d' start size) = d' := by
  funext a
  by_cases hlt : a < start
  · rw [writeBytes_of_lt hlt, h a (.inl hlt)]
  · by_cases hge : start + size ≤ a
    · rw [writeBytes_of_ge (by rwa [length_bytesAt]), h a (.inr hge)]
    · refine writeBytes_of_getElem? (not_lt.mp hlt) ?_
      rw [getElem?_bytesAt, if_pos (by omega)]
      congr 2
      omega

lemma uint64At_field {a n : ℕ} : uint64At (writeBytes ws a (field 8 n)) a = u64 n := by
  have hself := @bytesAt_writeBytes_self _ ws a (field 8 n)
  rw [length_field] at hself
  unfold uint64At
  rw [hself, fieldValue_field]
  rfl

lemma uint64At_writeBytes {a b : ℕ} {bytes : List UInt8}
    (h : a + 8 ≤ b ∨ b + bytes.length ≤ a) :
    uint64At (writeBytes ws b bytes) a = uint64At ws a := by
  unfold uint64At
  rw [bytesAt_writeBytes_of_apart h]

lemma preparedHeader_state :
    preparedHeader ws o guid privateDataSize numberOfWrites o =
      (ws o ||| writesAllocatedBit ||| writesCompletedBit) &&& 0xFE := by
  unfold preparedHeader
  rw [writeBytes_of_lt (by omega), writeBytes_of_lt (by omega), writeBytes_of_lt (by omega)]
  exact writeBytes_of_getElem? le_rfl (by rw [Nat.sub_self]; rfl)

lemma preparedHeader_of_outside {a : ℕ} (h : a < o ∨ o + 40 ≤ a) :
    preparedHeader ws o guid privateDataSize numberOfWrites a = ws a := by
  unfold preparedHeader
  rcases h with h | h
  · grind [writeBytes_of_lt]
  · rw [writeBytes_of_ge (by rw [length_field]; omega),
      writeBytes_of_ge (by rw [length_field]; omega),
      writeBytes_of_ge (by rw [length_field]; omega),
      writeBytes_of_ge (by rw [List.length_singleton]; omega)]

lemma callerId_preparedHeader :
    callerId (preparedHeader ws o guid privateDataSize numberOfWrites) o = field 16 guid.toNat := by
  unfold callerId preparedHeader
  rw [bytesAt_writeBytes_of_apart (.inl (by omega)), bytesAt_writeBytes_of_apart (.inl (by omega))]
  have hself := @bytesAt_writeBytes_self _ (writeBytes ws o
    [(ws o ||| writesAllocatedBit ||| writesCompletedBit) &&& 0xFE]) (o + 4) (field 16 guid.toNat)
  rwa [length_field] at hself

lemma numberOfWrites_preparedHeader :
    Ftw.numberOfWrites (preparedHeader ws o guid privateDataSize numberOfWrites) o =
      u64 numberOfWrites := by
  grind [uint64At_writeBytes, uint64At_field, Ftw.numberOfWrites, preparedHeader]

lemma privateDataSize_preparedHeader :
    Ftw.privateDataSize (preparedHeader ws o guid privateDataSize numberOfWrites) o =
      u64 privateDataSize := uint64At_field

/-- The flash after an allocation at the place of the last write. -/
def allocatedFlash (ws : Content) (o : ℕ) (guid : BitVec 128)
    (privateDataSize numberOfWrites : ℕ) : Content :=
  writeBytes (preparedHeader ws o guid privateDataSize numberOfWrites) o [0xFC]

lemma allocatedFlash_state : allocatedFlash ws o guid privateDataSize numberOfWrites o = 0xFC :=
  writeBytes_of_getElem? le_rfl (by rw [Nat.sub_self]; rfl)

lemma allocatedFlash_of_ne {a : ℕ} (h : a ≠ o) :
    allocatedFlash ws o guid privateDataSize numberOfWrites a =
      preparedHeader ws o guid privateDataSize numberOfWrites a := by
  unfold allocatedFlash
  grind [List.length_singleton, writeBytes_of_lt, writeBytes_of_ge]

lemma allocatedFlash_of_outside {a : ℕ} (h : a < o ∨ o + 40 ≤ a) :
    allocatedFlash ws o guid privateDataSize numberOfWrites a = ws a := by
  rw [allocatedFlash_of_ne (by omega), preparedHeader_of_outside h]

lemma allocatedFlash_fields :
    Ftw.numberOfWrites (allocatedFlash ws o guid privateDataSize numberOfWrites) o =
        u64 numberOfWrites ∧
      Ftw.privateDataSize (allocatedFlash ws o guid privateDataSize numberOfWrites) o =
        u64 privateDataSize := by
  have h := @fields_congr (preparedHeader ws o guid privateDataSize numberOfWrites)
    (allocatedFlash ws o guid privateDataSize numberOfWrites) o
    fun a _ _ => allocatedFlash_of_ne (by omega)
  rw [h.1, h.2]
  exact ⟨numberOfWrites_preparedHeader, privateDataSize_preparedHeader⟩

lemma callerId_allocatedFlash :
    callerId (allocatedFlash ws o guid privateDataSize numberOfWrites) o = field 16 guid.toNat := by
  refine Eq.trans ?_ (@callerId_preparedHeader o numberOfWrites privateDataSize ws guid)
  exact bytesAt_congr fun a _ _ => allocatedFlash_of_ne (by omega)

lemma complete_allocatedFlash :
    complete (allocatedFlash ws o guid privateDataSize numberOfWrites) o = false := by
  unfold complete
  rw [allocatedFlash_state]
  decide

lemma headerAllocated_allocatedFlash :
    headerAllocated (allocatedFlash ws o guid privateDataSize numberOfWrites) o = true := by
  unfold headerAllocated
  rw [allocatedFlash_state]
  decide

lemma writesAllocated_allocatedFlash :
    writesAllocated (allocatedFlash ws o guid privateDataSize numberOfWrites) o = true := by
  unfold writesAllocated
  rw [allocatedFlash_state]
  decide

lemma ends_allocateAt (hsti : cfg.Sticky) (hcopy : s.ftwWorkSpace = s.flash)
    (hera : Erased s.flash s.ftwLastWriteHeader cfg.size)
    (hroom : s.ftwLastWriteHeader + 80 ≤ cfg.size)
    (hQ : Q .success ⟨allocatedFlash s.flash s.ftwLastWriteHeader guid privateDataSize
        numberOfWrites, preparedHeader s.flash s.ftwLastWriteHeader guid privateDataSize
        numberOfWrites, s.ftwLastWriteHeader, s.ftwLastWriteRecord⟩) :
    Ends (allocateAt cfg guid privateDataSize numberOfWrites s.ftwLastWriteHeader s) Q E := by
  obtain ⟨flash, copy, header, record⟩ := s
  dsimp only at hcopy hera hroom hQ ⊢
  subst copy
  have hwri : writeFlash cfg header (bytesAt (preparedHeader flash header guid privateDataSize
      numberOfWrites) header writeHeaderSize) flash =
      preparedHeader flash header guid privateDataSize numberOfWrites := by
    rw [writeFlash_of_erased hsti]
    · exact writeBytes_bytesAt fun a h => preparedHeader_of_outside h
    · rw [length_bytesAt]
      exact fun a hle hlt => hera a hle (by unfold writeHeaderSize at hlt; omega)
  have hsta : preparedHeader flash header guid privateDataSize numberOfWrites header = 0xFE := by
    rw [preparedHeader_state, hera header le_rfl (by omega)]
    decide
  unfold allocateAt writeWorkSpaceData ftwUpdateFvState
  refine ends_bind (ends_get (ends_bind (ends_set (ends_bind (ends_bind (ends_get ?_))))))
  dsimp only
  refine ends_ite (fun h => ?_) fun _ => ?_
  · unfold writeHeaderSize at h
    omega
  · refine ends_set (ends_bind (ends_modify ?_))
    dsimp only
    rw [hwri, writeFlash_setState hsti setState_allocated_clears, hsta]
    exact ends_pure hQ

lemma ends_allocateAt_stale (hhdr : s.ftwLastWriteHeader + 40 ≤ cfg.size)
    (ho : o + 40 ≤ cfg.size)
    (hQ : ∀ t : FtwDevice, (∀ a < o, t.flash a = s.flash a) → Q .success t) :
    Ends (allocateAt cfg guid privateDataSize numberOfWrites o s) Q E := by
  unfold allocateAt writeWorkSpaceData ftwUpdateFvState
  refine ends_bind (ends_get (ends_bind (ends_set (ends_bind (ends_bind (ends_get ?_))))))
  refine ends_ite (fun h => ?_) fun _ => ?_
  · unfold writeHeaderSize at h
    omega
  · refine ends_set (ends_bind (ends_modify (ends_pure (hQ _ fun a ha => ?_))))
    simp [writeFlash_of_outside (.inl ha)]

/-- `FtwAllocate` on a queue: it fails and leaves a refreshed device, it writes its header to the
place of the last write, or it reclaims the work space and writes behind the end of the queue. -/
lemma ends_ftwAllocate (hsti : cfg.Sticky) (hq : Queue cfg s.flash o)
    (hfail : ∀ status t, status.isError → Refreshed cfg t → Q status t)
    (hfnd : ∀ t, Refreshed cfg t → Erased t.flash t.ftwLastWriteHeader cfg.size →
      (o + 80 ≤ cfg.size → t.flash = s.flash ∧ t.ftwLastWriteHeader = o) →
      t.ftwLastWriteHeader + ftwWriteTotalSize numberOfWrites privateDataSize ≤ cfg.size →
      Q .success ⟨allocatedFlash t.flash t.ftwLastWriteHeader guid privateDataSize numberOfWrites,
        preparedHeader t.flash t.ftwLastWriteHeader guid privateDataSize numberOfWrites,
        t.ftwLastWriteHeader, t.ftwLastWriteRecord⟩)
    (hsta : ∀ t : FtwDevice, o + 80 ≤ cfg.size → 112 ≤ o →
      cfg.size < o + ftwWriteTotalSize numberOfWrites privateDataSize →
      (∀ a < o, t.flash a = blank cfg a) → Q .success t) :
    Ends (ftwAllocate cfg guid privateDataSize numberOfWrites s) Q E := by
  have hlt := cfg.size_lt
  have hge : workingBlockHeaderSize + 80 ≤ cfg.size := cfg.size_ge
  unfold ftwAllocate
  refine ends_bind (ends_workSpaceRefresh hq fun t ht hsame hfull => ?_)
  refine ends_ite (fun h => absurd h (by decide)) fun _ => ends_bind (ends_get ?_)
  refine ends_ite (fun _ => ends_pure (hfail _ _ (by decide) ht)) fun htot => ?_
  rw [ht.copy, writeQueueSize_eq ht.queue.header] at htot
  refine ends_ite (fun _ => ends_pure (hfail _ _ (by decide) ht)) fun hfree => ?_
  have hera : Erased t.flash t.ftwLastWriteHeader cfg.size := by
    refine ht.queue.last.resolve_right fun h => hfree (.inl ?_)
    rw [ht.copy]
    exact h.allocated
  have hle := ht.queue.le_size
  have hsum : u64 (t.ftwLastWriteHeader + ftwWriteTotalSize numberOfWrites privateDataSize) =
      t.ftwLastWriteHeader + ftwWriteTotalSize numberOfWrites privateDataSize :=
    u64_of_lt (by omega)
  rw [hsum]
  refine ends_ite (fun hover => ?_) fun hroom => ?_
  · -- the reclaim moves the last write, but not the offset
    have hpla : o + 80 ≤ cfg.size ∧ t.ftwLastWriteHeader = o := by
      grind
    obtain ⟨hroom, heq⟩ := hpla
    rw [heq] at hover hera ⊢
    have hbeh : 112 ≤ o := hq.completed.eq_or_ge.resolve_left fun h => by omega
    obtain ⟨hcom, hfre', -, -⟩ := hera.last hroom
    have hsea : ftwGetLastWriteHeader cfg.size t.ftwWorkSpace = .ok (.success, o) := by
      rw [ht.copy]
      exact ftwGetLastWriteHeader_eq (heq ▸ ht.queue.completed) (size_lt cfg) (by omega) hcom
    refine ends_bind (ends_ftwReclaimWorkSpace (by rw [ht.copy]; exact ht.queue.header) hsea
      (.inr (by rwa [ht.copy])) fun ws => ?_)
    refine ends_ite (fun h => absurd h (by decide)) fun _ => ?_
    grind [ends_allocateAt_stale]
  · exact ends_allocateAt hsti ht.copy hera ht.room (hfnd t ht hera hsame (not_lt.mp hroom))

end Edk2.Ftw
