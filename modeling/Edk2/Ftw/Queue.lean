import Mathlib.Tactic.Ring
import Edk2.Ftw.Model

/-!
# The search for the last write

Over any content of the work space, `FtwGetLastWriteHeader` and `FtwGetLastWriteRecord` return
without a look behind its end exactly when the headers that they go through lie in it and lead back
to none of them, and the records of the last one lie in it.
-/

namespace Edk2.Ftw

open Bytes
open Relation (ReflTransGen TransGen)
open Walk (GoesTo walk_returns_iff)

variable {size : ℕ} {ws : Content} {header o : ℕ}

/-- The header is complete, and the next one begins in the work space. -/
def LeadsTo (size : ℕ) (ws : Content) (o o' : ℕ) : Prop :=
  complete ws o ∧ o' = u64 (o + headerTotalSize ws o) ∧ o' < size

/-- A header of the write queue: the first one, or one that a header of the queue leads to. -/
def QueueHeader (size : ℕ) (ws : Content) (o : ℕ) : Prop :=
  ReflTransGen (LeadsTo size ws) workingBlockHeaderSize o

/-- The address of a record, in `UINTN` arithmetic. -/
def recordAt (ws : Content) (header i : ℕ) : ℕ :=
  u64 (header + writeHeaderSize + i * (writeRecordSize + privateDataSize ws header))

/-- A header of the queue goes over the end of the work space. -/
def HeaderOverrun (size : ℕ) (ws : Content) : Prop :=
  ∃ o, QueueHeader size ws o ∧ size < o + writeHeaderSize

/-- The headers of the queue come back to one of them. -/
def HeaderCycle (size : ℕ) (ws : Content) : Prop :=
  ∃ o, QueueHeader size ws o ∧ TransGen (LeadsTo size ws) o o

/-- A record of the last header, with all the records before it complete, does not lie in the work
space. -/
def RecordOverrun (size : ℕ) (ws : Content) : Prop :=
  ∃ o, QueueHeader size ws o ∧ (∀ o', ¬ LeadsTo size ws o o') ∧
    ∃ i < numberOfWrites ws o, size < recordAt ws o i + writeRecordSize ∧
      ∀ j < i, destinationComplete ws (recordAt ws o j)

/-! ### The headers -/

lemma headerStep_of_not_complete (hin : o < size) (h : complete ws o = false) :
    headerStep size ws o = .ok (.inr (.success, o)) := by
  unfold headerStep
  rw [if_neg (not_le.mpr hin), h]
  rfl

lemma headerStep_of_complete (hin : o + writeHeaderSize ≤ size) (h : complete ws o = true) :
    headerStep size ws o = if u64 (o + headerTotalSize ws o) ≥ size
      then .ok (.inr (.aborted, o)) else .ok (.inl (u64 (o + headerTotalSize ws o))) := by
  grind [headerStep]

/-- A step that does not stop reads a state byte in the work space, and the whole of a header that
is complete. -/
lemma headerStep_eq_ok {r : ℕ ⊕ (EfiStatus × ℕ)} (h : headerStep size ws o = .ok r) :
    o < size ∧ (complete ws o = true → o + writeHeaderSize ≤ size) := by
  grind [headerStep]

lemma exists_headerStep (h : o + writeHeaderSize ≤ size) : ∃ r, headerStep size ws o = .ok r := by
  have hpos : writeHeaderSize = 40 := rfl
  cases hcom : complete ws o with
  | false => exact ⟨_, headerStep_of_not_complete (by omega) hcom⟩
  | true =>
    rw [headerStep_of_complete h hcom]
    split_ifs
    · exact ⟨_, rfl⟩
    · exact ⟨_, rfl⟩

lemma goesTo_iff {o' : ℕ} : GoesTo (headerStep size ws) o o' ↔
    o + writeHeaderSize ≤ size ∧ LeadsTo size ws o o' := by
  constructor
  · intro hgo
    obtain ⟨hlt, hin⟩ := headerStep_eq_ok hgo
    unfold GoesTo at hgo
    cases hcom : complete ws o with
    | false =>
      grind [headerStep_of_not_complete]
    | true =>
      rw [headerStep_of_complete (hin hcom) hcom] at hgo
      split_ifs at hgo with hend
      · exact absurd (Except.ok.inj hgo) nofun
      · have heq := Sum.inl.inj (Except.ok.inj hgo)
        exact ⟨hin hcom, hcom, heq.symm, heq ▸ not_le.mp hend⟩
  · rintro ⟨hin, hcom, heq, hlt⟩
    grind [headerStep_of_complete, GoesTo]

lemma not_leadsTo_of_returns {r : EfiStatus × ℕ} (h : headerStep size ws o = .ok (.inr r)) :
    r.2 = o ∧ ∀ o', ¬ LeadsTo size ws o o' := by
  obtain ⟨hlt, hin⟩ := headerStep_eq_ok h
  cases hcom : complete ws o with
  | false =>
    rw [headerStep_of_not_complete hlt hcom] at h
    obtain rfl := Sum.inr.inj (Except.ok.inj h)
    refine ⟨rfl, fun o' hlead => ?_⟩
    rw [hlead.1] at hcom
    exact absurd hcom nofun
  | true =>
    rw [headerStep_of_complete (hin hcom) hcom] at h
    split_ifs at h with hend
    · obtain rfl := Sum.inr.inj (Except.ok.inj h)
      refine ⟨rfl, fun o' hlead => absurd hlead.2.2 ?_⟩
      rw [hlead.2.1]
      exact not_lt.mpr hend
    · exact absurd (Except.ok.inj h) nofun

lemma queueHeader_of_reached (h : ReflTransGen (GoesTo (headerStep size ws))
    workingBlockHeaderSize o) : QueueHeader size ws o :=
  ReflTransGen.mono (fun _ _ hgo => (goesTo_iff.mp hgo).2) _ _ h

lemma reached_of_queueHeader (hin : ∀ y, ReflTransGen (GoesTo (headerStep size ws))
      workingBlockHeaderSize y → y + writeHeaderSize ≤ size) (h : QueueHeader size ws o) :
    ReflTransGen (GoesTo (headerStep size ws)) workingBlockHeaderSize o := by
  induction h with
  | refl => exact .refl
  | tail _ hlead ih => exact ih.tail (goesTo_iff.mpr ⟨hin _ ih, hlead⟩)

lemma cycle_of_transGen (hover : ¬ HeaderOverrun size ws) (h : QueueHeader size ws o) {o' : ℕ}
    (hcyc : TransGen (LeadsTo size ws) o o') :
    TransGen (GoesTo (headerStep size ws)) o o' := by
  induction hcyc with
  | single hlead =>
    exact .single (goesTo_iff.mpr ⟨not_lt.mp fun hlt => hover ⟨_, h, hlt⟩, hlead⟩)
  | tail hbef hlead ih =>
    refine ih.tail (goesTo_iff.mpr ⟨not_lt.mp fun hlt => hover ⟨_, ?_, hlt⟩, hlead⟩)
    exact h.trans hbef.to_reflTransGen

lemma recordLoop_returns_iff {p : ℕ} (left record : ℕ) (hrec : record < 2 ^ 64) :
    (∃ r, recordLoop size ws p left record = .ok r) ↔
      ¬ ∃ i < left, size < u64 (record + i * (writeRecordSize + p)) + writeRecordSize ∧
        ∀ j < i, destinationComplete ws (u64 (record + j * (writeRecordSize + p))) := by
  induction left generalizing record with
  | zero => exact iff_of_true ⟨_, rfl⟩ (by simp)
  | succ left ih =>
    have hzero : u64 (record + 0 * (writeRecordSize + p)) = record := by
      rw [Nat.zero_mul, Nat.add_zero]
      exact u64_of_lt hrec
    have hsucc : ∀ i, u64 (u64 (record + writeRecordSize + p) + i * (writeRecordSize + p)) =
        u64 (record + (i + 1) * (writeRecordSize + p)) := by
      intro i
      unfold u64
      rw [Nat.mod_add_mod]
      congr 1
      ring
    unfold recordLoop
    by_cases hover : size < record + writeRecordSize
    · rw [if_pos hover]
      refine iff_of_false nofun fun h => h ⟨0, Nat.succ_pos _, ?_, by simp⟩
      rwa [hzero]
    rw [if_neg hover]
    cases hdone : destinationComplete ws record with
    | false =>
      refine iff_of_true ⟨_, rfl⟩ ?_
      rintro ⟨i, -, hi, hbef⟩
      rcases Nat.eq_zero_or_pos i with rfl | hpos
      · rw [hzero] at hi
        exact hover hi
      grind
    | true =>
      rw [if_pos rfl, ih _ (u64_lt _)]
      refine not_congr ⟨?_, ?_⟩
      · rintro ⟨i, hlt, hi, hbef⟩
        refine ⟨i + 1, by omega, by rwa [← hsucc], fun j hj => ?_⟩
        cases j with
        | zero => rwa [hzero]
        | succ j =>
          rw [← hsucc]
          exact hbef j (by omega)
      · rintro ⟨i, hlt, hi, hbef⟩
        cases i with
        | zero =>
          rw [hzero] at hi
          exact absurd hi hover
        | succ i =>
          grind

lemma ftwGetLastWriteRecord_returns_iff (hsize : size < 2 ^ 64) :
    (∃ r, ftwGetLastWriteRecord size ws header = .ok r) ↔
      header + writeHeaderSize ≤ size ∧
        ¬ ∃ i < numberOfWrites ws header, size < recordAt ws header i + writeRecordSize ∧
          ∀ j < i, destinationComplete ws (recordAt ws header j) := by
  unfold ftwGetLastWriteRecord
  by_cases hover : size < header + writeHeaderSize
  · simp [hover]
  · rw [if_neg hover, recordLoop_returns_iff _ _ (by omega), and_iff_right (not_lt.mp hover)]
    rfl

/-- The last header and its last record are found without a look behind the end of the work space
exactly when the headers and the records that the content leads to lie in it and no header comes
back. -/
theorem lastWrite_returns_iff (size : ℕ) (ws : Content) (hsize : size < 2 ^ 64) :
    (∃ r, lastWrite size ws = .ok r) ↔
      ¬ HeaderOverrun size ws ∧ ¬ HeaderCycle size ws ∧ ¬ RecordOverrun size ws := by
  have hbound : ∀ y r, headerStep size ws y = .ok r → y < size := fun _ _ h =>
    (headerStep_eq_ok h).1
  constructor
  · rintro ⟨r, hr⟩
    unfold lastWrite at hr
    split at hr
    · exact absurd hr nofun
    rename_i status header hwalk
    obtain ⟨hheader, hrecords⟩ := (ftwGetLastWriteRecord_returns_iff hsize).mp ⟨r, hr⟩
    obtain ⟨last, hlast, hret⟩ := Walk.exists_returns_of_walk hwalk
    obtain ⟨rfl, hends⟩ := not_leadsTo_of_returns hret
    -- every header that the search reaches is complete, or it is the last one
    have hin : ∀ y, ReflTransGen (GoesTo (headerStep size ws)) workingBlockHeaderSize y →
        y + writeHeaderSize ≤ size := by
      intro y hy
      obtain ⟨fuel, hfuel⟩ := Walk.walk_of_reached hwalk hy
      obtain ⟨-, -, ⟨z, hgo, -⟩ | hreturns⟩ := Walk.walk_eq_ok hfuel
      · exact (goesTo_iff.mp hgo).1
      · rwa [← (not_leadsTo_of_returns hreturns).1]
    have hover : ¬ HeaderOverrun size ws := fun ⟨o, ho, hlt⟩ =>
      absurd (hin o (reached_of_queueHeader hin ho)) (not_le.mpr hlt)
    refine ⟨hover, fun ⟨o, ho, hcycle⟩ => ?_, fun ⟨o, ho, hends', hoverrun⟩ => hrecords ?_⟩
    · exact ((Walk.walk_returns_iff hbound).mp ⟨_, hwalk⟩).2 o (reached_of_queueHeader hin ho)
        (cycle_of_transGen hover ho hcycle)
    · -- the queue has only one header that leads to no other one
      obtain ⟨fuel, hfuel⟩ := Walk.walk_of_reached hwalk (reached_of_queueHeader hin ho)
      obtain ⟨-, -, ⟨z, hgo, -⟩ | hreturns⟩ := Walk.walk_eq_ok hfuel
      · exact absurd (goesTo_iff.mp hgo).2 (hends' z)
      · obtain heq := (not_leadsTo_of_returns hreturns).1
        dsimp only at heq
        rwa [heq]
  · rintro ⟨hover, hcycle, hrecord⟩
    have hin : ∀ y, QueueHeader size ws y → y + writeHeaderSize ≤ size := fun y hy =>
      not_lt.mp fun hlt => hover ⟨y, hy, hlt⟩
    obtain ⟨⟨status, header⟩, hwalk⟩ := (@Walk.walk_returns_iff _ _ Halt.loop _ _ _ hbound).mpr
      ⟨fun y hy => exists_headerStep (hin y (queueHeader_of_reached hy)),
        fun y hy h => hcycle ⟨y, queueHeader_of_reached hy,
          TransGen.mono (fun _ _ hgo => (goesTo_iff.mp hgo).2) _ _ h⟩⟩
    obtain ⟨last, hlast, hret⟩ := Walk.exists_returns_of_walk hwalk
    obtain ⟨heq, hends⟩ := not_leadsTo_of_returns hret
    dsimp only at heq
    subst heq
    have hqueue := queueHeader_of_reached hlast
    have hwalk' : ftwGetLastWriteHeader size ws = .ok (status, header) := hwalk
    unfold lastWrite
    rw [hwalk']
    exact (ftwGetLastWriteRecord_returns_iff hsize).mpr
      ⟨hin header hqueue, fun h => hrecord ⟨header, hqueue, hends, h⟩⟩

/-- A work space with one write header, and erased behind it. -/
def oneHeader (state : UInt8) (numberOfWrites privateDataSize : ℕ) : Content :=
  writeBytes (writeBytes (writeBytes (fun _ => ftwErasedByte) workingBlockHeaderSize [state])
    (workingBlockHeaderSize + 24) (field 8 numberOfWrites))
    (workingBlockHeaderSize + 32) (field 8 privateDataSize)

theorem lastWrite_returns_erased :
    (∃ r, lastWrite 192 (oneHeader 0xFF 1 0) = .ok r) ↔
      ¬ HeaderOverrun 192 (oneHeader 0xFF 1 0) ∧ ¬ HeaderCycle 192 (oneHeader 0xFF 1 0) ∧
        ¬ RecordOverrun 192 (oneHeader 0xFF 1 0) :=
  lastWrite_returns_iff 192 _ (by decide)

/-- A complete header of size zero leads to itself, and one of 120 bytes leads to a header behind
the end. -/
theorem not_lastWrite_returns :
    lastWrite 192 (oneHeader 0xF8 8 (2 ^ 61 - 45)) = .error .loop ∧
      lastWrite 192 (oneHeader 0xF8 1 40) = .error .fault ∧
      ¬ ∀ ws : Content, ∃ r, lastWrite 192 ws = .ok r := by
  have hloop : lastWrite 192 (oneHeader 0xF8 8 (2 ^ 61 - 45)) = .error .loop := by
    decide
  refine ⟨hloop, by decide, fun hall => ?_⟩
  obtain ⟨r, hr⟩ := hall (oneHeader 0xF8 8 (2 ^ 61 - 45))
  rw [hloop] at hr
  exact absurd hr nofun

end Edk2.Ftw

/-!
## The write queue

In the work space of a driver whose sums do not wrap around, complete writes follow one another.
Behind them there is a write that is not complete, and then nothing, or there is nothing at all.
-/

namespace Edk2.Ftw

open Bytes
open Relation (ReflTransGen)
open Walk (GoesTo)

variable {cfg : Config} {size offset : ℕ} {ws ws' : Content} {o o' a : ℕ} {b : UInt8}

set_option maxRecDepth 4000 in
lemma setState_complete_clears : b &&& setState b writesCompletedBit =
    setState b writesCompletedBit := by
  apply forall_byte (b := b)
  decide

set_option maxRecDepth 4000 in
lemma setState_allocated_clears : b &&& setState b writesAllocatedBit =
    setState b writesAllocatedBit := by
  apply forall_byte (b := b)
  decide

set_option maxRecDepth 4000 in
lemma valid_setState_complete : valid (setState b writesCompletedBit) writesCompletedBit := by
  apply forall_byte (b := b)
  decide

set_option maxRecDepth 4000 in
lemma erased_and : (255 : UInt8) &&& b = b := by
  apply forall_byte (b := b)
  decide

lemma length_zipWith_program {bytes : List UInt8} :
    (List.zipWith cfg.program (bytesAt ws offset bytes.length) bytes).length = bytes.length := by
  simp

lemma writeFlash_of_outside {bytes : List UInt8} (h : a < offset ∨ offset + bytes.length ≤ a) :
    writeFlash cfg offset bytes ws a = ws a := by
  unfold writeFlash
  grind [writeBytes_of_lt, writeBytes_of_ge]

lemma writeFlash_of_clears {bytes : List UInt8} (hsti : cfg.Sticky)
    (h : ∀ i (hi : i < bytes.length), ws (offset + i) &&& bytes[i] = bytes[i]) :
    writeFlash cfg offset bytes ws = writeBytes ws offset bytes := by
  unfold writeFlash
  congr 1
  apply List.ext_getElem
  · exact length_zipWith_program
  · intro i hi hi'
    rw [List.getElem_zipWith]
    apply hsti
    grind [bytesAt]

lemma writeFlash_setState {bit : UInt8} (hsti : cfg.Sticky)
    (h : ws o &&& setState (ws o) bit = setState (ws o) bit) :
    writeFlash cfg o [setState (ws o) bit] ws = writeBytes ws o [setState (ws o) bit] := by
  grind [writeFlash_of_clears]

/-- The range is erased. -/
def Erased (ws : Content) (start stop : ℕ) : Prop := ∀ a, start ≤ a → a < stop → ws a = 255

lemma writeFlash_of_erased {bytes : List UInt8} (hsti : cfg.Sticky)
    (h : Erased ws offset (offset + bytes.length)) :
    writeFlash cfg offset bytes ws = writeBytes ws offset bytes := by
  apply writeFlash_of_clears hsti
  intro i hi
  rw [h (offset + i) (by omega) (by omega)]
  exact erased_and

lemma uint64At_congr (h : ∀ a, offset ≤ a → a < offset + 8 → ws' a = ws a) :
    uint64At ws' offset = uint64At ws offset := by
  unfold uint64At
  rw [bytesAt_congr h]

lemma fields_congr (h : ∀ a, o + 24 ≤ a → a < o + 40 → ws' a = ws a) :
    numberOfWrites ws' o = numberOfWrites ws o ∧ privateDataSize ws' o = privateDataSize ws o := by
  constructor
  · exact uint64At_congr fun a hle hlt => h a hle (by omega)
  · exact uint64At_congr fun a hle hlt => h a (by omega) (by omega)

/-- The size of a header with its records, as it is meant. -/
def entrySize (ws : Content) (header : ℕ) : ℕ :=
  totalSize (numberOfWrites ws header) (privateDataSize ws header)

lemma entrySize_congr (h : ∀ a, o + 24 ≤ a → a < o + 40 → ws' a = ws a) :
    entrySize ws' o = entrySize ws o := by
  unfold entrySize
  rw [(fields_congr h).1, (fields_congr h).2]

lemma le_entrySize_of_pos (h : 0 < numberOfWrites ws o) :
    80 + privateDataSize ws o ≤ entrySize ws o := by
  unfold entrySize totalSize
  have := Nat.le_mul_of_pos_left (writeRecordSize + privateDataSize ws o) h
  unfold writeRecordSize writeHeaderSize at *
  omega

lemma headerTotalSize_of_lt (h : entrySize ws o < 2 ^ 64) :
    headerTotalSize ws o = entrySize ws o := u64_of_lt h

/-- A complete write, and the place behind it. -/
structure Completed (size : ℕ) (ws : Content) (o o' : ℕ) : Prop where
  complete : complete ws o
  writes_pos : 0 < numberOfWrites ws o
  next : o' = o + entrySize ws o
  le_size : o' ≤ size

/-- The complete writes up to a place. -/
def CompletedUpTo (size : ℕ) (ws : Content) (o : ℕ) : Prop :=
  ReflTransGen (Completed size ws) workingBlockHeaderSize o

/-- A write that is allocated and not complete, and nothing behind it. -/
structure InProgress (size : ℕ) (ws : Content) (o : ℕ) : Prop where
  allocated : headerAllocated ws o
  not_complete : complete ws o = false
  writes_pos : 0 < numberOfWrites ws o
  le_size : o + entrySize ws o ≤ size
  erased : Erased ws (o + entrySize ws o) size

/-- The queue of a driver, up to its last write. -/
structure Queue (cfg : Config) (ws : Content) (o : ℕ) : Prop where
  header : bytesAt ws 0 workingBlockHeaderSize = mWorkingBlockHeader cfg
  completed : CompletedUpTo cfg.size ws o
  le_size : o ≤ cfg.size
  last : Erased ws o cfg.size ∨ InProgress cfg.size ws o

lemma Completed.congr (h : Completed size ws o o') (heq : ∀ a, o ≤ a → a < o + 40 → ws' a = ws a) :
    Completed size ws' o o' := by
  obtain ⟨hcom, hpos, hnext, hle⟩ := h
  have hfie := @fields_congr ws ws' o fun a hle hlt => heq a (by omega) hlt
  refine ⟨?_, ?_, ?_, hle⟩
  · unfold Ftw.complete at *
    rwa [heq o le_rfl (by omega)]
  · rwa [hfie.1]
  · rwa [entrySize_congr fun a hle hlt => heq a (by omega) hlt]

lemma Completed.lt (h : Completed size ws o o') : o + 80 ≤ o' := by
  have := le_entrySize_of_pos h.writes_pos
  rw [h.next]
  omega

lemma CompletedUpTo.ge (h : CompletedUpTo size ws o) : workingBlockHeaderSize ≤ o := by
  induction h with
  | refl => exact le_rfl
  | tail _ hc ih => exact ih.trans ((Nat.le_add_right _ _).trans hc.lt)

lemma CompletedUpTo.eq_or_ge (h : CompletedUpTo size ws o) : o = 32 ∨ 112 ≤ o := by
  rcases ReflTransGen.cases_tail h with heq | ⟨y, hy, hc⟩
  · exact .inl heq
  · have := CompletedUpTo.ge hy
    have := hc.lt
    unfold workingBlockHeaderSize at *
    exact .inr (by omega)

lemma CompletedUpTo.congr (h : CompletedUpTo size ws o) (heq : ∀ a < o, ws' a = ws a) :
    CompletedUpTo size ws' o := by
  induction h with
  | refl => exact .refl
  | tail _ hc ih =>
    have hlt := hc.lt
    exact (ih fun a ha => heq a (by omega)).tail (hc.congr fun a _ ha => heq a (by omega))

lemma InProgress.congr (h : InProgress size ws o)
    (hsta : headerAllocated ws' o ∧ complete ws' o = false)
    (hfie : ∀ a, o + 24 ≤ a → a < o + 40 → ws' a = ws a)
    (hbeh : ∀ a, o + entrySize ws o ≤ a → ws' a = ws a) : InProgress size ws' o := by
  have hsize := entrySize_congr hfie
  refine ⟨hsta.1, hsta.2, ?_, ?_, ?_⟩
  · rw [(fields_congr hfie).1]
    exact h.writes_pos
  · rw [hsize]
    exact h.le_size
  · rw [hsize]
    intro a hle hlt
    rw [hbeh a hle]
    exact h.erased a hle hlt

lemma writeQueueSize_eq (h : bytesAt ws 0 workingBlockHeaderSize = mWorkingBlockHeader cfg) :
    uint64At ws 24 = cfg.size - 32 := by
  have hdrop := congrArg (List.drop 24) h
  rw [drop_bytesAt (by decide)] at hdrop
  unfold mWorkingBlockHeader at hdrop
  rw [List.drop_left' (by simp)] at hdrop
  unfold uint64At
  rw [show bytesAt ws 24 8 = field 8 (cfg.size - workingBlockHeaderSize) from hdrop,
    fieldValue_field]
  have := cfg.size_lt
  simp [workingBlockHeaderSize]
  omega

lemma size_lt (cfg : Config) : cfg.size < 2 ^ 64 := cfg.size_lt.trans (by decide)

lemma Completed.goesTo (h : Completed size ws o o') (hsize : size < 2 ^ 64) (hlt : o' < size) :
    GoesTo (headerStep size ws) o o' := by
  have hle := h.lt
  have hent : headerTotalSize ws o = entrySize ws o :=
    headerTotalSize_of_lt (by have := h.next; have := h.le_size; omega)
  refine goesTo_iff.mpr ⟨by unfold writeHeaderSize; omega, h.complete, ?_, hlt⟩
  rw [hent, ← h.next, u64_of_lt (hlt.trans hsize)]

lemma CompletedUpTo.reached (h : CompletedUpTo size ws o) (hsize : size < 2 ^ 64)
    (hlt : o < size) :
    ReflTransGen (GoesTo (headerStep size ws)) workingBlockHeaderSize o := by
  induction h with
  | refl => exact .refl
  | tail _ hc ih =>
    have := hc.lt
    exact (ih (by omega)).tail (hc.goesTo hsize hlt)

lemma ftwGetLastWriteHeader_eq (h : CompletedUpTo size ws o) (hsize : size < 2 ^ 64)
    (hlt : o < size) (hlast : complete ws o = false) :
    ftwGetLastWriteHeader size ws = .ok (.success, o) :=
  Walk.walk_eq_of_reached (fun _ _ h => (headerStep_eq_ok h).1) (h.reached hsize hlt)
    (headerStep_of_not_complete hlt hlast)

lemma ftwGetLastWriteHeader_full (h : CompletedUpTo size ws size) (hsize : size < 2 ^ 64)
    (hne : workingBlockHeaderSize < size) :
    ∃ header, ftwGetLastWriteHeader size ws = .ok (.aborted, header) := by
  rcases ReflTransGen.cases_tail h with heq | ⟨y, hy, hc⟩
  · exact absurd heq hne.ne'
  · have hlt := hc.lt
    have hent : headerTotalSize ws y = entrySize ws y :=
      headerTotalSize_of_lt (by have := hc.next; omega)
    refine ⟨y, Walk.walk_eq_of_reached (fun _ _ h => (headerStep_eq_ok h).1)
      (CompletedUpTo.reached hy hsize (by omega)) ?_⟩
    rw [headerStep_of_complete (by unfold writeHeaderSize; omega) hc.complete, hent, ← hc.next,
      u64_of_lt hsize, if_pos le_rfl]

lemma recordLoop_eq {p : ℕ} (left record : ℕ) (hpos : 0 < left)
    (hle : record + left * (writeRecordSize + p) ≤ size) (hsize : size < 2 ^ 64) :
    ∃ i < left, recordLoop size ws p left record =
      .ok (.success, record + i * (writeRecordSize + p)) := by
  induction left generalizing record with
  | zero => exact absurd hpos (lt_irrefl 0)
  | succ left ih =>
    have hmul : (left + 1) * (writeRecordSize + p) =
        left * (writeRecordSize + p) + (writeRecordSize + p) := Nat.succ_mul _ _
    unfold recordLoop
    rw [if_neg (by omega)]
    cases hdone : destinationComplete ws record with
    | false =>
      simp
    | true =>
      rw [if_pos rfl, u64_of_lt (by omega)]
      rcases Nat.eq_zero_or_pos left with rfl | hleft
      · simp [recordLoop, sub64, ftwRecordSize, u64]
        omega
      · obtain ⟨i, hi, heq⟩ := ih (record + writeRecordSize + p) hleft (by omega)
        refine ⟨i + 1, by omega, ?_⟩
        rw [heq, Nat.succ_mul]
        congr 2
        omega

lemma exists_lastWriteRecord (hle : o + 80 ≤ size)
    (hera : destinationComplete ws (o + 40) = false) :
    ∃ record, ftwGetLastWriteRecord size ws o = .ok (.success, record) ∧
      (0 < numberOfWrites ws o → record = o + 40) := by
  unfold ftwGetLastWriteRecord
  rw [if_neg (by unfold writeHeaderSize; omega)]
  cases hn : numberOfWrites ws o with
  | zero => exact ⟨_, rfl, fun h => absurd h (lt_irrefl 0)⟩
  | succ n =>
    simp [hera, recordLoop, writeHeaderSize, writeRecordSize]
    omega

lemma InProgress.exists_lastWriteRecord (h : InProgress size ws o) (hsize : size < 2 ^ 64) :
    ∃ record, ftwGetLastWriteRecord size ws o = .ok (.success, record) ∧ o + 40 ≤ record ∧
      record + (40 + privateDataSize ws o) ≤ o + entrySize ws o := by
  have hle := h.le_size
  have hbig := le_entrySize_of_pos h.writes_pos
  unfold ftwGetLastWriteRecord
  rw [if_neg (by unfold writeHeaderSize; omega)]
  have hent : entrySize ws o = 40 + numberOfWrites ws o * (40 + privateDataSize ws o) := rfl
  obtain ⟨i, hi, heq⟩ := @recordLoop_eq size ws (privateDataSize ws o) (numberOfWrites ws o)
    (o + writeHeaderSize) h.writes_pos (by unfold writeHeaderSize writeRecordSize; omega) hsize
  refine ⟨_, heq, by unfold writeHeaderSize; omega, ?_⟩
  have hmul : (i + 1) * (40 + privateDataSize ws o) ≤
      numberOfWrites ws o * (40 + privateDataSize ws o) := Nat.mul_le_mul_right _ hi
  grind

end Edk2.Ftw
