import Mathlib.Algebra.Order.Group.Nat
import Mathlib.Algebra.Ring.Int.Defs
import Mathlib.Algebra.Ring.Nat
import Mathlib.Tactic.Common

/-!
# Strings in a store

A store is a function of its addresses. `bytesAt` reads a string from it and `writeBytes` writes
one.
-/

namespace Bytes

variable {β : Type} {d d' : ℕ → β} {start start' size size' i a : ℕ} {bytes bytes' : List β}

/-- The string at an address. -/
def bytesAt (d : ℕ → β) (start size : ℕ) : List β := (List.range size).map fun i => d (start + i)

/-- Write a string to an address. -/
def writeBytes (d : ℕ → β) (start : ℕ) (bytes : List β) : ℕ → β := fun a =>
  if start ≤ a then (bytes[a - start]?).getD (d a) else d a

@[simp] lemma length_bytesAt : (bytesAt d start size).length = size := by
  simp [bytesAt]

@[simp] lemma bytesAt_zero : bytesAt d start 0 = [] := rfl

lemma getElem?_bytesAt :
    (bytesAt d start size)[i]? = if i < size then some (d (start + i)) else none := by
  grind [List.getElem?_range, List.getElem?_eq_none, bytesAt]

lemma bytesAt_congr (h : ∀ a, start ≤ a → a < start + size → d a = d' a) :
    bytesAt d start size = bytesAt d' start size := by
  apply List.map_congr_left
  grind

/-- Two strings one behind the other. -/
lemma bytesAt_add :
    bytesAt d start (size + size') = bytesAt d start size ++ bytesAt d (start + size) size' := by
  simp [List.range_add, List.map_append, List.map_map, Nat.add_assoc, bytesAt]

/-- A string is two strings one behind the other. -/
lemma bytesAt_eq_append : bytesAt d start (bytes ++ bytes').length = bytes ++ bytes' ↔
    bytesAt d start bytes.length = bytes ∧
      bytesAt d (start + bytes.length) bytes'.length = bytes' := by
  rw [List.length_append, bytesAt_add]
  constructor
  · intro h
    exact List.append_inj h (by simp)
  · rintro ⟨h₁, h₂⟩
    rw [h₁, h₂]

lemma take_bytesAt (h : i ≤ size) : (bytesAt d start size).take i = bytesAt d start i := by
  obtain ⟨rest, rfl⟩ := Nat.exists_eq_add_of_le h
  rw [bytesAt_add, List.take_left' length_bytesAt]

lemma drop_bytesAt (h : i ≤ size) :
    (bytesAt d start size).drop i = bytesAt d (start + i) (size - i) := by
  obtain ⟨rest, rfl⟩ := Nat.exists_eq_add_of_le h
  rw [bytesAt_add, List.drop_left' length_bytesAt]
  congr 1
  omega

lemma writeBytes_of_lt (h : a < start) : writeBytes d start bytes a = d a :=
  if_neg (Nat.not_le.mpr h)

lemma writeBytes_of_ge (h : start + bytes.length ≤ a) : writeBytes d start bytes a = d a := by
  grind [List.getElem?_eq_none, writeBytes]

lemma writeBytes_of_getElem? {b : β} (hle : start ≤ a) (h : bytes[a - start]? = some b) :
    writeBytes d start bytes a = b := by
  unfold writeBytes
  rw [if_pos hle, h]
  rfl

@[simp] lemma writeBytes_nil : writeBytes d start [] = d := by
  funext a
  unfold writeBytes
  split_ifs <;> rfl

/-- A single element is written. -/
lemma writeBytes_singleton {b : β} : writeBytes d start [b] a = if a = start then b else d a := by
  split_ifs with h
  · subst h
    exact writeBytes_of_getElem? le_rfl (by simp)
  grind [writeBytes_of_lt, writeBytes_of_ge]

/-- What is there already is written again. -/
lemma writeBytes_eq_self (h : bytesAt d start bytes.length = bytes) :
    writeBytes d start bytes = d := by
  funext a
  by_cases ha : start ≤ a ∧ a < start + bytes.length
  · refine writeBytes_of_getElem? ha.1 ?_
    rw [← h, getElem?_bytesAt, if_pos (by omega), show start + (a - start) = a by omega]
  · rcases Nat.lt_or_ge a start with hlt | hge
    · exact writeBytes_of_lt hlt
    · exact writeBytes_of_ge (by omega)

/-- What is written changes nothing else. -/
lemma writeBytes_ne (h : writeBytes d start bytes a ≠ d a) :
    start ≤ a ∧ a < start + bytes.length := by
  constructor
  · exact Nat.not_lt.mp fun hlt => h (writeBytes_of_lt hlt)
  · exact Nat.not_le.mp fun hge => h (writeBytes_of_ge hge)

@[simp] lemma bytesAt_writeBytes_self : bytesAt (writeBytes d start bytes) start bytes.length
    = bytes := by
  apply List.ext_getElem?
  grind [getElem?_bytesAt, Nat.add_sub_cancel_left, writeBytes_of_getElem?,
    List.getElem?_eq_getElem, List.getElem?_eq_none]

/-- A string that does not meet the one that is written. -/
lemma bytesAt_writeBytes_of_apart
    (h : start + size ≤ start' ∨ start' + bytes.length ≤ start) :
    bytesAt (writeBytes d start' bytes) start size = bytesAt d start size := by
  grind [bytesAt_congr, writeBytes_of_lt, writeBytes_of_ge]

/-- A string is put before another one that was moved behind it. -/
lemma bytesAt_writeBytes_insert :
    bytesAt (writeBytes (writeBytes d (start + bytes.length) bytes') start bytes) start
      (bytes.length + bytes'.length) = bytes ++ bytes' := by
  simp [bytesAt_add, bytesAt_writeBytes_self, bytesAt_writeBytes_of_apart (Or.inr le_rfl)]

/-- Strings are written one after the other, each to its own address. -/
def writePieces (d : ℕ → β) (pieces : List (ℕ × List β)) : ℕ → β :=
  pieces.foldl (fun d piece => writeBytes d piece.1 piece.2) d

section Pieces

variable {pieces : List (ℕ × List β)} {piece : ℕ × List β}

lemma writePieces_of_apart (h : ∀ piece ∈ pieces, a < piece.1 ∨ piece.1 + piece.2.length ≤ a) :
    writePieces d pieces a = d a := by
  induction pieces generalizing d with
  | nil => rfl
  | cons p pieces ih =>
    change writePieces (writeBytes d p.1 p.2) pieces a = d a
    grind [writeBytes_of_lt, writeBytes_of_ge]

/-- Strings that lie one behind the other do not overwrite each other. -/
lemma writePieces_of_getElem? {b : β}
    (hsor : pieces.Pairwise fun p q => p.1 + p.2.length ≤ q.1) (hpie : piece ∈ pieces)
    (hle : piece.1 ≤ a) (h : piece.2[a - piece.1]? = some b) : writePieces d pieces a = b := by
  induction pieces generalizing d with
  | nil => cases hpie
  | cons p pieces ih =>
    obtain ⟨hfst, hsor⟩ := List.pairwise_cons.mp hsor
    change writePieces (writeBytes d p.1 p.2) pieces a = b
    grind [writePieces_of_apart, writeBytes_of_getElem?]

end Pieces

/-- A number as a little-endian field. -/
def field : ℕ → ℕ → List UInt8
  | 0, _ => []
  | size + 1, n => UInt8.ofNat n :: field size (n / 256)

/-- The number in a little-endian field. -/
def fieldValue : List UInt8 → ℕ
  | [] => 0
  | b :: bytes => b.toNat + 256 * fieldValue bytes

@[simp] lemma length_field {n : ℕ} : (field size n).length = size := by
  induction size generalizing n with
  | zero => rfl
  | succ size ih => simp [field, ih]

lemma fieldValue_field {n : ℕ} : fieldValue (field size n) = n % 256 ^ size := by
  induction size generalizing n with
  | zero => simp [field, fieldValue, Nat.mod_one]
  | succ size ih =>
    have hmod : n % (256 * 256 ^ size) = n % 256 + 256 * (n / 256 % 256 ^ size) := Nat.mod_mul
    unfold field fieldValue
    rw [ih, Nat.pow_succ', hmod, UInt8.toNat_ofNat']

lemma fieldValue_lt (bytes : List UInt8) : fieldValue bytes < 256 ^ bytes.length := by
  induction bytes with
  | nil => simp [fieldValue]
  | cons b bytes ih =>
    have hb := b.toNat_lt
    unfold fieldValue
    rw [List.length_cons, Nat.pow_succ]
    omega

end Bytes
