import Edk2.Lib.OnesComplement
import Edk2.Net.BufferSpec

/-!
# Checksums of net buffers

`NetblockChecksum`, `NetAddChecksum` and `NetbufChecksum` of `Library/DxeNetLib/NetBuffer.c`. Words
are read with the lowest byte first. Sums are `UINT32`; a sum knows whether one of its additions has
wrapped around. The checksum of a buffer is that of its bytes, wherever it is split into blocks.
-/

namespace Edk2.Net

open OnesComplement

variable {a b bulk : List UInt8} {s : ℕ} {ops : List NetBlockOp}

/-- A `UINT32`, and whether it has wrapped around on the way. -/
structure Sum32 where
  value : ℕ
  wrapped : Bool
deriving DecidableEq, Repr

def Sum32.zero : Sum32 := ⟨0, false⟩

def Sum32.add (s : Sum32) (n : ℕ) : Sum32 :=
  ⟨u32 (s.value + n), s.wrapped || decide (2 ^ 32 ≤ s.value + n)⟩

/-- `while (Len > 1)`. -/
def wordLoop : List UInt8 → Sum32 → Sum32
  | low :: high :: bulk, sum => wordLoop bulk (sum.add (low.toNat + 2 ^ 8 * high.toNat))
  | _, sum => sum

/-- `while ((Sum >> 16) != 0)`. -/
def foldLoop (sum : Sum32) : Sum32 :=
  if h : sum.value / 2 ^ 16 ≠ 0 then
    foldLoop (Sum32.add ⟨sum.value % 2 ^ 16, sum.wrapped⟩ (sum.value / 2 ^ 16))
  else sum
termination_by sum.value
decreasing_by
  refine lt_of_le_of_lt (Nat.mod_le _ _) ?_
  dsimp only
  omega

def netblockChecksum (bulk : List UInt8) : Sum32 :=
  -- the left-over byte comes first
  let sum :=
    if bulk.length % 2 ≠ 0 then Sum32.zero.add (bulk.getLast?.getD 0).toNat else Sum32.zero
  foldLoop (wordLoop bulk sum)

def netAddChecksum (checksum₁ checksum₂ : ℕ) : Sum32 :=
  let sum := (⟨checksum₁, false⟩ : Sum32).add checksum₂
  if sum.value / 2 ^ 16 ≠ 0 then Sum32.add ⟨sum.value % 2 ^ 16, sum.wrapped⟩ 1 else sum

def swapBytes16 (value : ℕ) : ℕ := value % 2 ^ 8 * 2 ^ 8 + value / 2 ^ 8

/-- The loop of `NetbufChecksum`, with `Offset` and `TotalSum`. -/
def checksumLoop : List NetBlockOp → Sum32 → Sum32 → Sum32
  | [], offset, totalSum => ⟨totalSum.value, totalSum.wrapped || offset.wrapped⟩
  | op :: ops, offset, totalSum =>
    if op.size = 0 then checksumLoop ops offset totalSum
    else
      let blockSum := netblockChecksum op.bytes
      let swapped := if offset.value % 2 ≠ 0 then swapBytes16 blockSum.value else blockSum.value
      let sum := netAddChecksum swapped totalSum.value
      checksumLoop ops (offset.add op.size)
        ⟨sum.value, totalSum.wrapped || blockSum.wrapped || sum.wrapped⟩

def netbufChecksum (nbuf : NetBuf) : Sum32 := checksumLoop nbuf.blockOp Sum32.zero Sum32.zero

/-- The sum of the words of some bytes; a left-over byte is the low byte of a word. -/
def wordSum : List UInt8 → ℕ
  | low :: high :: bulk => low.toNat + 2 ^ 8 * high.toNat + wordSum bulk
  | [low] => low.toNat
  | [] => 0

/-- The sum of the words of bytes that start with the high byte of a word. -/
def oddSum : List UInt8 → ℕ
  | high :: bulk => 2 ^ 8 * high.toNat + wordSum bulk
  | [] => 0

lemma wordSum_cons (low : UInt8) (bulk : List UInt8) :
    wordSum (low :: bulk) = low.toNat + oddSum bulk := by
  cases bulk with
  | nil => rfl
  | cons high bulk =>
    simp only [wordSum, oddSum]
    omega

lemma wordSum_append (a b : List UInt8) :
    wordSum (a ++ b) = wordSum a + if a.length % 2 = 0 then wordSum b else oddSum b := by
  match a with
  | [] => simp [wordSum]
  | [low] => exact wordSum_cons low b
  | low :: high :: a =>
    have ih := wordSum_append a b
    grind [wordSum, List.length_cons]

lemma wordSum_le (bulk : List UInt8) : 2 * wordSum bulk ≤ 65535 * (bulk.length + 1) := by
  match bulk with
  | [] => simp [wordSum]
  | [low] =>
    have hlow := low.toNat_lt
    simp only [wordSum, List.length_cons, List.length_nil]
    omega
  | low :: high :: bulk =>
    have ih := wordSum_le bulk
    have hlow := low.toNat_lt
    have hhigh := high.toNat_lt
    simp only [wordSum, List.length_cons]
    omega

lemma oddSum_modEq (bulk : List UInt8) : oddSum bulk ≡ 2 ^ 8 * wordSum bulk [MOD 65535] := by
  match bulk with
  | [] => exact Nat.ModEq.refl 0
  | [high] => exact Nat.ModEq.refl _
  | low :: high :: bulk =>
    have ih := oddSum_modEq bulk
    have hhigh : high.toNat ≡ 2 ^ 16 * high.toNat [MOD 65535] := by
      have hbase : 1 ≡ 2 ^ 16 [MOD 65535] := by decide
      simpa using hbase.mul_right high.toNat
    calc oddSum (low :: high :: bulk) = 2 ^ 8 * low.toNat + (high.toNat + oddSum bulk) := by
          rw [oddSum, wordSum_cons]
      _ ≡ 2 ^ 8 * low.toNat + (2 ^ 16 * high.toNat + 2 ^ 8 * wordSum bulk) [MOD 65535] :=
          (hhigh.add ih).add_left _
      _ = 2 ^ 8 * wordSum (low :: high :: bulk) := by
          simp only [wordSum]
          omega

lemma oddSum_eq_zero (bulk : List UInt8) : oddSum bulk = 0 ↔ wordSum bulk = 0 := by
  match bulk with
  | [] => exact Iff.rfl
  | [high] =>
    simp only [oddSum, wordSum]
    omega
  | low :: high :: bulk =>
    have ih := oddSum_eq_zero bulk
    rw [oddSum, wordSum_cons, wordSum]
    omega

/-! ### The code on sums of words -/

lemma Sum32.add_of_lt {k l : ℕ} (h : k + l < 2 ^ 32) :
    (⟨k, false⟩ : Sum32).add l = ⟨k + l, false⟩ := by
  simp only [Sum32.add, Bool.false_or, Sum32.mk.injEq, decide_eq_false_iff_not, not_le]
  exact ⟨u32_of_lt h, h⟩

lemma wordLoop_eq (bulk : List UInt8) (s : ℕ)
    (hlt : s + wordSum (bulk.take (bulk.length / 2 * 2)) < 2 ^ 32) :
    wordLoop bulk ⟨s, false⟩ = ⟨s + wordSum (bulk.take (bulk.length / 2 * 2)), false⟩ := by
  match bulk with
  | [] => rfl
  | [_] => simp [wordLoop, wordSum]
  | low :: high :: bulk =>
    have hlen : (low :: high :: bulk).length / 2 * 2 = bulk.length / 2 * 2 + 2 := by
      simp only [List.length_cons]
      omega
    rw [hlen, List.take_succ_cons, List.take_succ_cons, wordSum] at hlt ⊢
    rw [wordLoop, Sum32.add_of_lt (by omega), wordLoop_eq bulk _ (by omega)]
    congr 1
    omega

lemma wordSum_split (bulk : List UInt8) : wordSum bulk =
    (if bulk.length % 2 ≠ 0 then (bulk.getLast?.getD 0).toNat else 0) +
      wordSum (bulk.take (bulk.length / 2 * 2)) := by
  match bulk with
  | [] => rfl
  | [low] => simp [wordSum]
  | low :: high :: bulk =>
    have ih := wordSum_split bulk
    have hlen : (low :: high :: bulk).length / 2 * 2 = bulk.length / 2 * 2 + 2 := by
      simp only [List.length_cons]
      omega
    grind [List.length_cons, wordSum, List.getLast?_cons_cons]

lemma foldLoop_eq (hlt : s < 2 ^ 32) : foldLoop ⟨s, false⟩ = ⟨carried 65535 s, false⟩ := by
  induction s using Nat.strong_induction_on with
  | _ s ih =>
    grind [foldLoop, Sum32.add_of_lt, carried_of_le, carried_fold]

lemma netblockChecksum_eq (hlt : bulk.length < 2 ^ 17) :
    netblockChecksum bulk = ⟨carried 65535 (wordSum bulk), false⟩ := by
  have hle := wordSum_le bulk
  have hspl := wordSum_split bulk
  have hfst : (if bulk.length % 2 ≠ 0 then Sum32.zero.add (bulk.getLast?.getD 0).toNat
      else Sum32.zero) =
      ⟨if bulk.length % 2 ≠ 0 then (bulk.getLast?.getD 0).toNat else 0, false⟩ := by
    have hbyte := (bulk.getLast?.getD 0).toNat_lt
    split_ifs with hodd
    · rw [Sum32.zero, Sum32.add_of_lt (by omega), Nat.zero_add]
    · rfl
  grind [wordLoop_eq, foldLoop_eq, netblockChecksum]

lemma netAddChecksum_eq {m n : ℕ} (hm : m ≤ 65535) (hn : n ≤ 65535) :
    netAddChecksum m n = ⟨carried 65535 (m + n), false⟩ := by
  unfold netAddChecksum
  rw [Sum32.add_of_lt (by omega)]
  dsimp only
  split_ifs with hcar
  · rw [Sum32.add_of_lt (by omega)]
    congr 1
    rw [← carried_fold (by decide) (m + n), carried_of_le (by omega)]
    omega
  · rw [carried_of_le (by omega)]

lemma swapBytes16_modEq (value : ℕ) : swapBytes16 value ≡ 2 ^ 8 * value [MOD 65535] := by
  have hhigh : value / 2 ^ 8 ≡ 2 ^ 16 * (value / 2 ^ 8) [MOD 65535] := by
    have hbase : 1 ≡ 2 ^ 16 [MOD 65535] := by decide
    have hmul := hbase.mul_right (value / 2 ^ 8)
    rwa [Nat.one_mul] at hmul
  calc swapBytes16 value ≡ value % 2 ^ 8 * 2 ^ 8 + 2 ^ 16 * (value / 2 ^ 8) [MOD 65535] :=
        hhigh.add_left _
    _ = 2 ^ 8 * value := by omega

lemma swapBytes16_carried (bulk : List UInt8) :
    swapBytes16 (carried 65535 (wordSum bulk)) = carried 65535 (oddSum bulk) := by
  have hle : carried 65535 (wordSum bulk) ≤ 65535 := carried_le (by decide)
  apply eq_carried
  · unfold swapBytes16
    omega
  · rw [oddSum_eq_zero, ← carried_eq_zero (m := 65535) (n := wordSum bulk)]
    unfold swapBytes16
    omega
  · exact (swapBytes16_modEq _).trans
      (((carried_modEq _ _).mul_left _).trans (oddSum_modEq bulk).symm)

lemma checksumLoop_eq (hops : BlocksWellFormed ops)
    (hlt : bulk.length + blockSize ops < 2 ^ 17) :
    checksumLoop ops ⟨bulk.length, false⟩ ⟨carried 65535 (wordSum bulk), false⟩ =
      ⟨carried 65535 (wordSum (bulk ++ blockBytes ops)), false⟩ := by
  induction ops generalizing bulk with
  | nil =>
    rw [blockBytes_nil, List.append_nil]
    rfl
  | cons op ops ih =>
    obtain ⟨hop, hops⟩ := blocksWellFormed_cons.mp hops
    rw [blockSize_cons] at hlt
    have hlen := hop.length_bytes
    unfold checksumLoop
    by_cases hemp : op.size = 0
    · grind [blockBytes_cons]
    · rw [if_neg hemp, netblockChecksum_eq (by omega)]
      dsimp only
      have hswa : (if bulk.length % 2 ≠ 0 then swapBytes16 (carried 65535 (wordSum op.bytes))
          else carried 65535 (wordSum op.bytes)) =
          carried 65535 (if bulk.length % 2 = 0 then wordSum op.bytes else oddSum op.bytes) := by
        by_cases heven : bulk.length % 2 = 0
        · rw [if_neg (not_not.mpr heven), if_pos heven]
        · rw [if_pos heven, if_neg heven]
          exact swapBytes16_carried op.bytes
      have hoff : (⟨bulk.length, false⟩ : Sum32).add op.size =
          ⟨(bulk ++ op.bytes).length, false⟩ := by
        rw [Sum32.add_of_lt (by omega), List.length_append, hlen]
      rw [hswa, netAddChecksum_eq (carried_le (by decide)) (carried_le (by decide)), hoff,
        carried_add (by decide), Nat.add_comm, ← wordSum_append, blockBytes_cons,
        ← List.append_assoc]
      exact ih hops (by rw [List.length_append, hlen]; omega)

/-- **The checksum of a buffer is that of its bytes**, and no sum wraps around. -/
theorem netbufChecksum_eq (nbuf : NetBuf) (h : nbuf.WellFormed) (hlt : nbuf.totalSize < 2 ^ 17) :
    netbufChecksum nbuf = netblockChecksum nbuf.bytes ∧ (netbufChecksum nbuf).wrapped = false ∧
      (netblockChecksum nbuf.bytes).wrapped = false := by
  have hloop : netbufChecksum nbuf = ⟨carried 65535 (wordSum nbuf.bytes), false⟩ := by
    have hlt' : ([] : List UInt8).length + blockSize nbuf.blockOp < 2 ^ 17 := by
      rw [h.total, List.length_nil, Nat.zero_add]
      exact hlt
    exact checksumLoop_eq h.blocks hlt'
  have hblock : netblockChecksum nbuf.bytes = ⟨carried 65535 (wordSum nbuf.bytes), false⟩ := by
    apply netblockChecksum_eq
    rw [h.length_bytes]
    exact hlt
  simp [hloop, hblock]

/-- Three bytes in a block of one byte, an empty block and a block of two bytes. -/
theorem netbufChecksum_split :
    netbufChecksum ⟨[netbufSetBlockOp [1] 1, netbufSetBlockOp [] 0, netbufSetBlockOp [2, 3] 2], 3⟩ =
      netblockChecksum [1, 2, 3] := by
  refine (netbufChecksum_eq _ ⟨List.cons_ne_nil _ _, ?_, rfl, by decide⟩ (by decide)).1
  refine blocksWellFormed_cons.mpr ⟨wellFormed_netbufSetBlockOp le_rfl,
    blocksWellFormed_cons.mpr ⟨wellFormed_netbufSetBlockOp le_rfl,
      blocksWellFormed_cons.mpr ⟨wellFormed_netbufSetBlockOp le_rfl, blocksWellFormed_nil⟩⟩⟩

/-- `(UINT16) (~NetblockChecksum (...))`. -/
def complement (bulk : List UInt8) : ℕ := 65535 - (netblockChecksum bulk).value

lemma wordSum_field (front back : List UInt8) (low high : UInt8) (heven : front.length % 2 = 0) :
    wordSum (front ++ low :: high :: back) =
      wordSum (front ++ 0 :: 0 :: back) + (low.toNat + 2 ^ 8 * high.toNat) := by
  rw [wordSum_append, wordSum_append, if_pos heven, if_pos heven]
  simp only [wordSum, UInt8.toNat_zero]
  omega

/-- A receiver accepts the field that a sender computes over a zero field, and besides it only
`0xFFFF` where that is zero. -/
theorem complement_eq_zero_iff (front back : List UInt8) (low high : UInt8)
    (heven : front.length % 2 = 0) (hlt : (front ++ low :: high :: back).length < 2 ^ 17) :
    complement (front ++ low :: high :: back) = 0 ↔
      low.toNat + 2 ^ 8 * high.toNat = complement (front ++ 0 :: 0 :: back) ∨
        complement (front ++ 0 :: 0 :: back) = 0 ∧ low.toNat + 2 ^ 8 * high.toNat = 65535 := by
  have hlow := low.toNat_lt
  have hhigh := high.toNat_lt
  have hlt' : (front ++ 0 :: 0 :: back).length < 2 ^ 17 := by
    rw [List.length_append] at hlt ⊢
    exact hlt
  unfold complement
  rw [netblockChecksum_eq hlt, netblockChecksum_eq hlt', wordSum_field front back low high heven]
  have hcar : ∀ k, carried 65535 k ≤ 65535 ∧ (carried 65535 k = 0 ↔ k = 0) ∧
      carried 65535 k % 65535 = k % 65535 :=
    fun k => ⟨carried_le (by decide), carried_eq_zero, carried_modEq _ k⟩
  have hsent := hcar (wordSum (front ++ 0 :: 0 :: back))
  have hseen := hcar (wordSum (front ++ 0 :: 0 :: back) + (low.toNat + 2 ^ 8 * high.toNat))
  dsimp only
  omega

/-- The field of a header of four bytes. -/
theorem complement_eq_zero_iff_four : complement ([1, 2] ++ 0xFE :: 0xFD :: []) = 0 :=
  (complement_eq_zero_iff [1, 2] [] 0xFE 0xFD rfl (by decide)).mpr (.inl (by
    rw [complement, netblockChecksum_eq (by decide)]
    decide))

end Edk2.Net
