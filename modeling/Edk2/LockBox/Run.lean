import Edk2.Lib.Bytes
import Edk2.LockBox.Model
import Mathlib.Data.List.Nodup

/-!
# Runs of the LockBox store

The store is a map from GUIDs to byte strings. A box that may be restored in S3 resume only can
grow, and a box that is restored in place must not; the two attributes exclude each other. But
attributes can be taken away again: after that, a box that has grown can be restored in place, and
a box that was for S3 resume only can be read. As long as `RESTORE_IN_S3_ONLY` is not taken away
from a box, neither happens.
-/

namespace Edk2.LockBox

open Overlay Bytes

variable {s s' : State} {g : Guid} {queue : List SmmLockBoxData}
  {f : SmmLockBoxData → SmmLockBoxData}

/-- A byte string after some bytes were written into it. If they are behind its end, the gap is
filled with zeros. -/
def patch (bytes : List Byte) (offset : ℕ) (data : List Byte) : List Byte :=
  (bytes ++ List.replicate (offset - bytes.length) 0).take offset ++ data ++
    bytes.drop (offset + data.length)

/-- What was saved under a GUID. -/
structure Entry where
  bytes : List Byte
  /-- The arguments of `SaveLockBox`. -/
  buffer : ℕ
  size : ℕ
  /-- It was given `RESTORE_IN_S3_ONLY` at some time. -/
  s3Only : Bool
deriving DecidableEq, Repr

abbrev Spec := Guid → Option Entry

/-- What a successful call makes of the map. -/
def Spec.call (spec : Spec) (memory : ℕ → Byte) : Call → Spec
  | .save (some g) buffer length _ _ =>
    Function.update spec g (some ⟨bytesAt memory buffer length, buffer, length, false⟩)
  | .setAttributes (some g) attributes =>
    Function.update spec g ((spec g).map fun e =>
      { e with s3Only := e.s3Only || restoreInS3Only attributes })
  | .update (some g) offset buffer length _ =>
    Function.update spec g ((spec g).map fun e =>
      { e with bytes := patch e.bytes offset (bytesAt memory buffer length) })
  | _ => spec

/-- The states of runs whose calls meet a condition, and the maps that belong to them. -/
inductive Reaches (P : State → Call → Prop) : State → Spec → Prop
  | initial (memory : ℕ → Byte) : Reaches P (.initial memory) fun _ => none
  | call {s : State} {spec : Spec} (c : Call) (h : Reaches P s spec) (hc : P s c) :
    Reaches P (s.call c).2 (if (s.call c).1.isError then spec else spec.call s.memory c)
  /-- `SmmLockBoxSmmReadyToLockNotify`. -/
  | readyToLock {s : State} {spec : Spec} (h : Reaches P s spec) :
    Reaches P { s with readyToLock := true } spec
  /-- `SmmLockBoxS3EntryCallBack`. -/
  | s3Entry {s : State} {spec : Spec} (h : Reaches P s spec) :
    Reaches P { s with duringS3Resume := true } spec
  /-- `SmmLockBoxEndOfS3ResumeNotify`. -/
  | endOfS3Resume {s : State} {spec : Spec} (h : Reaches P s spec) :
    Reaches P { s with duringS3Resume := false } spec
  /-- The callers write to their memory. -/
  | memory {s : State} {spec : Spec} (memory : ℕ → Byte) (h : Reaches P s spec) :
    Reaches P { s with memory := memory } spec

/-- The store behaves as the map, stays in its bounds and keeps its secrets. -/
structure Correct (s : State) (spec : Spec) : Prop where
  unique : (s.queue.map SmmLockBoxData.guid).Nodup
  attributes : ∀ box ∈ s.queue,
    ¬(restoreInPlace box.attributes = true ∧ restoreInS3Only box.attributes = true)
  restore : ∀ g buffer length s' length', buffer ≠ 0 →
    restoreLockBox s (some g) buffer (some length) = (.success, s', length') →
    ∃ e, spec g = some e ∧ length' = some e.bytes.length ∧ e.bytes.length ≤ length ∧
      s' = { s with memory := writeBytes s.memory buffer e.bytes }
  fail : ∀ c, (s.call c).1.isError → (s.call c).2 = s
  inPlace : ∀ g s' length', restoreLockBox s (some g) 0 none = (.success, s', length') →
    ∃ e, spec g = some e ∧ e.bytes.length ≤ e.size ∧
      s' = { s with memory := writeBytes s.memory e.buffer e.bytes }
  all : ∀ s', restoreAllLockBoxInPlace s = (.success, s') → s' = { s with memory := s'.memory } ∧
    ∀ a, s'.memory a = s.memory a ∨ ∃ g e, spec g = some e ∧ e.s3Only = false ∧
      Covers e.buffer e.size a ∧ e.bytes[a - e.buffer]? = some (s'.memory a)
  secret : s.readyToLock = true → s.duringS3Resume = false → ∀ g e, spec g = some e →
    e.s3Only = true → ∀ buffer length, (restoreLockBox s (some g) buffer length).1.isError

/-- `RESTORE_IN_S3_ONLY` is not taken away from a box. -/
def KeepsS3Only (s : State) : Call → Prop
  | .setAttributes (some g) attributes => ∀ box, internalFindLockBoxByGuid s.queue g = some box →
    restoreInS3Only box.attributes = true → restoreInS3Only attributes = true
  | _ => True

lemma getElem?_patch {bytes data : List Byte} {offset i : ℕ} :
    (patch bytes offset data)[i]? =
      if i < offset then some (bytes.getD i 0)
      else if i < offset + data.length then data[i - offset]?
      else bytes[i]? := by
  have hlen : ((bytes ++ List.replicate (offset - bytes.length) 0).take offset).length
      = offset := by
    simp
    omega
  unfold patch
  rw [List.append_assoc]
  split_ifs with hlt hdata
  · grind
  · grind
  grind

lemma bytesAt_overlay {smram src : ℕ → Byte} {start size length offset : ℕ}
    (h : offset + size ≤ length) :
    bytesAt (overlay smram offset size fun i => src (start + i)) 0 length =
      patch (bytesAt smram 0 length) offset (bytesAt src start size) := by
  apply List.ext_getElem?
  intro i
  rw [getElem?_patch, getElem?_bytesAt, length_bytesAt, Nat.zero_add]
  by_cases hlt : i < offset
  · rw [if_pos hlt, if_pos (by omega), overlay_of_not_covers fun hc => by have := hc.1; omega]
    simp [bytesAt, show i < length by omega]
  · rw [if_neg hlt]
    by_cases hdata : i < offset + size
    · rw [if_pos hdata, if_pos (by omega), getElem?_bytesAt, if_pos (by omega),
        overlay_of_covers ⟨Nat.not_lt.mp hlt, hdata⟩]
    · rw [if_neg hdata, getElem?_bytesAt, overlay_of_not_covers fun hc => hdata hc.2, Nat.zero_add]

lemma bytesAt_overlay_zeroGap {smram src : ℕ → Byte} {start size length offset : ℕ}
    (h : length < offset + size) :
    bytesAt (overlay (zeroGap smram length offset) offset size fun i => src (start + i)) 0
        (offset + size) =
      patch (bytesAt smram 0 length) offset (bytesAt src start size) := by
  apply List.ext_getElem?
  intro i
  rw [getElem?_patch, getElem?_bytesAt, length_bytesAt, Nat.zero_add]
  by_cases hlt : i < offset
  · rw [if_pos hlt, if_pos (by omega), overlay_of_not_covers fun hc => by have := hc.1; omega]
    congr 1
    unfold zeroGap
    by_cases hin : i < length
    · have hnot : ¬Covers length (offset - length) i := fun hc => by have := hc.1; omega
      simp [bytesAt, hin, hnot, ite_apply]
    · have hcov : Covers length (offset - length) i := ⟨by omega, by omega⟩
      grind [overlay_of_covers, bytesAt]
  · rw [if_neg hlt]
    by_cases hdata : i < offset + size
    · simp [hdata, getElem?_bytesAt, overlay_of_covers ⟨Nat.not_lt.mp hlt, hdata⟩]
      omega
    simp [hdata, getElem?_bytesAt]
    omega

lemma bytesAt_overlay_zero {pages smram : ℕ → Byte} {length : ℕ} :
    bytesAt (overlay pages 0 length smram) 0 length = bytesAt smram 0 length := by
  apply List.ext_getElem?
  intro i
  rw [getElem?_bytesAt, getElem?_bytesAt]
  split_ifs with h
  · rw [overlay_of_covers ⟨by omega, by omega⟩]
    simp
  · rfl

lemma writeBytes_bytesAt {memory smram : ℕ → Byte} {address length : ℕ} :
    writeBytes memory address (bytesAt smram 0 length) = overlay memory address length smram := by
  funext a
  by_cases h : Covers address length a
  · have hle := h.1
    have hlt := h.2
    rw [overlay_of_covers h]
    refine writeBytes_of_getElem? hle ?_
    rw [getElem?_bytesAt, if_pos (by omega), Nat.zero_add]
  · rw [overlay_of_not_covers h]
    by_contra hne
    have hcov := writeBytes_ne hne
    rw [length_bytesAt] at hcov
    exact h hcov

lemma find_eq_some_of_mem {box : SmmLockBoxData} (huni : (queue.map SmmLockBoxData.guid).Nodup)
    (h : box ∈ queue) : internalFindLockBoxByGuid queue box.guid = some box := by
  induction queue with
  | nil => cases h
  | cons first queue ih =>
    grind [List.nodup_cons, List.find?_cons_of_neg, internalFindLockBoxByGuid]

lemma map_guid_modifyLockBox (hf : ∀ box, (f box).guid = box.guid) :
    (modifyLockBox g f queue).map SmmLockBoxData.guid = queue.map SmmLockBoxData.guid := by
  induction queue with
  | nil => rfl
  | cons box queue ih =>
    unfold modifyLockBox
    split_ifs
    · simp [hf]
    · simp [ih]

lemma find_modifyLockBox (hf : ∀ box, (f box).guid = box.guid) :
    internalFindLockBoxByGuid (modifyLockBox g f queue) g =
      (internalFindLockBoxByGuid queue g).map f := by
  induction queue with
  | nil => rfl
  | cons box queue ih =>
    grind [internalFindLockBoxByGuid, modifyLockBox]

lemma find_modifyLockBox_of_ne {g' : Guid} (hne : g' ≠ g) (hf : ∀ box, (f box).guid = box.guid) :
    internalFindLockBoxByGuid (modifyLockBox g f queue) g' =
      internalFindLockBoxByGuid queue g' := by
  induction queue with
  | nil => rfl
  | cons box queue ih =>
    grind [internalFindLockBoxByGuid, modifyLockBox]

lemma mem_modifyLockBox {box : SmmLockBoxData} (h : box ∈ modifyLockBox g f queue) :
    box ∈ queue ∨ ∃ old, internalFindLockBoxByGuid queue g = some old ∧ box = f old := by
  induction queue with
  | nil => cases h
  | cons first queue ih =>
    unfold modifyLockBox at h
    grind [internalFindLockBoxByGuid]

/-- A box holds what was saved. Only a box that is for S3 resume only has grown. -/
structure Agrees (box : SmmLockBoxData) (e : Entry) : Prop where
  bytes : bytesAt box.smram 0 box.length = e.bytes
  buffer : box.buffer = e.buffer
  s3Only : restoreInS3Only box.attributes = e.s3Only
  size : e.s3Only = false → box.length = e.size

structure Inv (s : State) (spec : Spec) : Prop where
  unique : (s.queue.map SmmLockBoxData.guid).Nodup
  attributes : ∀ box ∈ s.queue,
    ¬(restoreInPlace box.attributes = true ∧ restoreInS3Only box.attributes = true)
  agrees : ∀ g box, internalFindLockBoxByGuid s.queue g = some box →
    ∃ e, spec g = some e ∧ Agrees box e
  missing : ∀ g, internalFindLockBoxByGuid s.queue g = none → spec g = none

variable {spec : Spec} {box : SmmLockBoxData} {e e' : Entry}

lemma Inv.congr (h : Inv s spec) (hque : s'.queue = s.queue) : Inv s' spec := by
  obtain ⟨huni, hatt, hagr, hmis⟩ := h
  rw [← hque] at huni hatt hagr hmis
  exact ⟨huni, hatt, hagr, hmis⟩

lemma Inv.modify (h : Inv s spec) (hfind : internalFindLockBoxByGuid s.queue g = some box)
    (hf : ∀ box, (f box).guid = box.guid)
    (hatt : ¬(restoreInPlace (f box).attributes = true ∧ restoreInS3Only (f box).attributes = true))
    (he : Agrees (f box) e') :
    Inv { s with queue := modifyLockBox g f s.queue } (Function.update spec g (some e')) := by
  refine ⟨?_, ?_, ?_, ?_⟩
  · rw [map_guid_modifyLockBox hf]
    exact h.unique
  · intro box' hmem
    rcases mem_modifyLockBox hmem with hold | ⟨old, hold, rfl⟩
    · exact h.attributes box' hold
    grind
  · intro g' box' hfin'
    by_cases hg : g' = g
    · grind [find_modifyLockBox]
    · rw [find_modifyLockBox_of_ne hg hf] at hfin'
      rw [Function.update_of_ne hg]
      exact h.agrees g' box' hfin'
  · intro g' hnone
    by_cases hg : g' = g
    · grind [find_modifyLockBox]
    · rw [find_modifyLockBox_of_ne hg hf] at hnone
      rw [Function.update_of_ne hg]
      exact h.missing g' hnone

lemma Inv.append (h : Inv s spec) (hfind : internalFindLockBoxByGuid s.queue box.guid = none)
    (hatt : ¬(restoreInPlace box.attributes = true ∧ restoreInS3Only box.attributes = true))
    (he : Agrees box e) :
    Inv { s with queue := s.queue ++ [box] } (Function.update spec box.guid (some e)) := by
  have hnew : ∀ old ∈ s.queue, old.guid ≠ box.guid := by
    intro old hold heq
    have := List.find?_eq_none.mp hfind old hold
    exact this (by simpa using heq)
  refine ⟨?_, ?_, ?_, ?_⟩
  · rw [List.map_append, List.nodup_append]
    refine ⟨h.unique, by simp, ?_⟩
    grind
  · intro box' hmem
    rcases List.mem_append.mp hmem with hold | hlast
    · exact h.attributes box' hold
    grind
  · intro g' box' hfin'
    unfold internalFindLockBoxByGuid at hfin' hfind
    rw [List.find?_append] at hfin'
    by_cases hg : g' = box.guid
    · grind
    · rw [Function.update_of_ne hg]
      have hnot : List.find? (fun box => decide (box.guid = g')) [box] = none := by
        simp [Ne.symm hg]
      rw [hnot, Option.or_none] at hfin'
      exact h.agrees g' box' hfin'
  · intro g' hnone
    unfold internalFindLockBoxByGuid at hnone
    rw [List.find?_append, Option.or_eq_none_iff] at hnone
    have hg : g' ≠ box.guid := by
      rintro rfl
      simp at hnone
    rw [Function.update_of_ne hg]
    exact h.missing g' hnone.1

/-! ### Calls -/

lemma call_of_isError (c : Call) (h : (s.call c).1.isError = true) : (s.call c).2 = s := by
  cases c with
  | save guid buffer length pages pool =>
    unfold State.call saveLockBox at h ⊢
    grind [EfiStatus.isError]
  | setAttributes guid attributes =>
    unfold State.call setLockBoxAttributes at h ⊢
    grind [EfiStatus.isError]
  | update guid offset buffer length pages =>
    unfold State.call updateLockBox at h ⊢
    grind [EfiStatus.isError]
  | restore guid buffer length =>
    unfold State.call restoreLockBox at h ⊢
    grind [EfiStatus.isError]
  | restoreAll => cases h

lemma save_cases {guid : Option Guid} {buffer length : ℕ} {pages : Pages} {pool : Bool}
    (hok : saveLockBox s guid buffer length pages pool = (.success, s')) :
    ∃ g content, guid = some g ∧ internalFindLockBoxByGuid s.queue g = none ∧
      s' = { s with
        queue := s.queue ++ [⟨g, buffer, length, 0,
          overlay content 0 length fun i => s.memory (buffer + i)⟩] } := by
  unfold saveLockBox at hok
  split at hok
  · cases hok
  · split at hok
    · cases hok
    · split at hok
      · cases hok
      · next hfnd =>
        split at hok
        · cases hok
        · split at hok
          · cases hok
          · cases hok
            exact ⟨_, _, rfl, by simpa using hfnd, rfl⟩

lemma setAttributes_cases {guid : Option Guid} {attributes : BitVec 64}
    (hok : setLockBoxAttributes s guid attributes = (.success, s')) :
    ∃ g box, guid = some g ∧ internalFindLockBoxByGuid s.queue g = some box ∧
      ¬(restoreInPlace attributes = true ∧ restoreInS3Only attributes = true) ∧
      s' = { s with
        queue := modifyLockBox g (fun box => { box with attributes := attributes }) s.queue } := by
  unfold setLockBoxAttributes at hok
  split at hok
  · cases hok
  grind

lemma update_cases {guid : Option Guid} {offset buffer length : ℕ} {pages : Pages}
    (hok : updateLockBox s guid offset buffer length pages = (.success, s')) :
    ∃ g box, guid = some g ∧ internalFindLockBoxByGuid s.queue g = some box ∧
      ∃ size smram, s' = { s with
        queue := modifyLockBox g (fun box => { box with
          length := size
          smram := overlay smram offset length fun i => s.memory (buffer + i) }) s.queue } ∧
      (size = box.length ∧ smram = box.smram ∧ offset + length ≤ box.length ∨
        restoreInS3Only box.attributes = true ∧ size = offset + length ∧
          box.length < offset + length ∧ ∃ content, smram = zeroGap content box.length offset ∧
            bytesAt content 0 box.length = bytesAt box.smram 0 box.length) := by
  unfold updateLockBox at hok
  split at hok
  · cases hok
  · split at hok
    · cases hok
    · split at hok
      · cases hok
      · next box hfind =>
        refine ⟨_, box, rfl, hfind, ?_⟩
        dsimp only at hok
        split at hok
        · next hlon =>
          split at hok
          · next hs3 =>
            split at hok
            · split at hok
              · cases hok
              · cases hok
                exact ⟨_, _, rfl, Or.inr ⟨hs3, rfl, hlon, _, rfl, bytesAt_overlay_zero⟩⟩
            · cases hok
              grind
          · cases hok
        grind

lemma inv_save {guid : Option Guid} {buffer length : ℕ} {pages : Pages} {pool : Bool}
    (h : Inv s spec) (hok : saveLockBox s guid buffer length pages pool = (.success, s')) :
    Inv s' (spec.call s.memory (.save guid buffer length pages pool)) := by
  obtain ⟨g, content, rfl, hfind, rfl⟩ := save_cases hok
  refine h.append hfind ?_ ⟨?_, rfl, by simp [restoreInS3Only], fun _ => rfl⟩
  · simp [restoreInPlace]
  · rw [bytesAt_overlay_zero]
    simp [bytesAt]

lemma inv_setAttributes {guid : Option Guid} {attributes : BitVec 64} (h : Inv s spec)
    (hkee : KeepsS3Only s (.setAttributes guid attributes))
    (hok : setLockBoxAttributes s guid attributes = (.success, s')) :
    Inv s' (spec.call s.memory (.setAttributes guid attributes)) := by
  obtain ⟨g, box, rfl, hfind, hboth, rfl⟩ := setAttributes_cases hok
  obtain ⟨e, he, hagr⟩ := h.agrees g box hfind
  have hsti : restoreInS3Only attributes = (e.s3Only || restoreInS3Only attributes) := by
    rw [← hagr.s3Only]
    cases hs3 : restoreInS3Only box.attributes with
    | false => simp
    | true => simpa using hkee box hfind hs3
  rw [Spec.call, he]
  refine h.modify hfind (fun _ => rfl) hboth ⟨hagr.bytes, hagr.buffer, hsti, ?_⟩
  intro hnot
  exact hagr.size (Bool.or_eq_false_iff.mp hnot).1

lemma inv_update {guid : Option Guid} {offset buffer length : ℕ} {pages : Pages} (h : Inv s spec)
    (hok : updateLockBox s guid offset buffer length pages = (.success, s')) :
    Inv s' (spec.call s.memory (.update guid offset buffer length pages)) := by
  obtain ⟨g, box, rfl, hfind, size, smram, rfl, hcas⟩ := update_cases hok
  obtain ⟨e, he, hagr⟩ := h.agrees g box hfind
  have hexc := h.attributes box (List.mem_of_find?_eq_some hfind)
  rw [Spec.call, he]
  rcases hcas with ⟨rfl, rfl, hfits⟩ | ⟨hs3, rfl, hlon, content, rfl, hcon⟩
  · refine h.modify hfind (fun _ => rfl) hexc ⟨?_, hagr.buffer, hagr.s3Only, hagr.size⟩
    rw [bytesAt_overlay hfits, hagr.bytes]
  · refine h.modify hfind (fun _ => rfl) hexc ⟨?_, hagr.buffer, hagr.s3Only, fun hnot => ?_⟩
    · rw [bytesAt_overlay_zeroGap hlon, hcon, hagr.bytes]
    · rw [← hagr.s3Only, hs3] at hnot
      cases hnot

lemma restore_cases {buffer : ℕ} {length length' : Option ℕ}
    (hok : restoreLockBox s (some g) buffer length = (.success, s', length')) :
    ∃ box, internalFindLockBoxByGuid s.queue g = some box ∧
      (buffer = 0 → restoreInPlace box.attributes = true) ∧
      length' = length.map (fun _ => box.length) ∧ (∀ n, length = some n → box.length ≤ n) ∧
      s' = { s with
        memory := overlay s.memory (if buffer ≠ 0 then buffer else box.buffer) box.length
          box.smram } := by
  unfold restoreLockBox at hok
  dsimp only at hok
  split at hok
  · cases hok
  · split at hok
    · cases hok
    · next box hfind =>
      refine ⟨box, hfind, ?_⟩
      split at hok
      · cases hok
      · split at hok
        · cases hok
        grind

lemma restoreAll_memory (queue : List SmmLockBoxData) (memory : ℕ → Byte) (a : ℕ) :
    let m := queue.foldl (fun memory box =>
      if restoreInPlace box.attributes then overlay memory box.buffer box.length box.smram
      else memory) memory
    m a = memory a ∨ ∃ box ∈ queue, restoreInPlace box.attributes = true ∧
      Covers box.buffer box.length a ∧ box.smram (a - box.buffer) = m a := by
  induction queue generalizing memory with
  | nil => exact Or.inl rfl
  | cons box queue ih =>
    dsimp only [List.foldl_cons] at ih ⊢
    grind [overlay_of_covers, overlay_of_not_covers]

lemma Reaches.inv (h : Reaches KeepsS3Only s spec) : Inv s spec := by
  induction h with
  | initial memory =>
    exact ⟨List.nodup_nil, fun box hbox => (by cases hbox), fun g box hfind => (by cases hfind),
      fun _ _ => rfl⟩
  | @call s spec c _ hc ih =>
    cases herr : (s.call c).1.isError with
    | true =>
      rw [call_of_isError c herr, if_pos rfl]
      exact ih
    | false =>
      rw [if_neg Bool.false_ne_true]
      have hok : s.call c = (.success, (s.call c).2) := by
        grind [EfiStatus.isError, Prod.ext]
      cases c with
      | save guid buffer length pages pool => exact inv_save ih hok
      | setAttributes guid attributes => exact inv_setAttributes ih hc hok
      | update guid offset buffer length pages => exact inv_update ih hok
      | restore guid buffer length =>
        cases guid with
        | none => cases hok
        | some g =>
          unfold State.call at hok ⊢
          dsimp only at hok ⊢
          rcases hres : restoreLockBox s (some g) buffer length with ⟨status, s', length'⟩
          rw [hres] at hok
          cases hok
          obtain ⟨box, -, -, -, -, rfl⟩ := restore_cases hres
          exact ih.congr rfl
      | restoreAll => exact ih.congr rfl
  | readyToLock _ ih => exact ih.congr rfl
  | s3Entry _ ih => exact ih.congr rfl
  | endOfS3Resume _ ih => exact ih.congr rfl
  | memory memory _ ih => exact ih.congr rfl

end Edk2.LockBox
