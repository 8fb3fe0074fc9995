import Mathlib.Algebra.Ring.Int.Defs
import Mathlib.Algebra.Ring.Nat
import Mathlib.Data.List.Basic

/-!
# Common UEFI definitions

Status codes, 64-bit wrap-around and the memory attribute bits shared by the services of the
DXE core. Addresses and lengths are natural numbers; where the C code computes in `UINT64` the
result is reduced with `u64`. Bit masks are `BitVec 64`.
-/

namespace Edk2

inductive EfiStatus
  | success
  | invalidParameter
  | unsupported
  | badBufferSize
  | bufferTooSmall
  | notReady
  | deviceError
  | outOfResources
  | notFound
  | accessDenied
  | alreadyStarted
  | aborted
  | notAvailableYet
  | securityViolation
  | writeProtected
  | volumeCorrupted
  | volumeFull
deriving DecidableEq, Repr

/-- `EFI_ERROR (Status)`. -/
def EfiStatus.isError (status : EfiStatus) : Bool := status != .success

/-- Why a call never returns to its caller. -/
inductive Halt
  /-- An `ASSERT` failed. -/
  | assert
  /-- A loop was cut off: the C code would still be running. -/
  | loop
  /-- A pointer to no object was dereferenced. -/
  | fault
deriving DecidableEq, Repr

lemma forall_byte {p : UInt8 → Prop} (h : ∀ n : Fin 256, p (UInt8.ofNat n)) (b : UInt8) : p b := by
  have hb := h ⟨b.toNat, b.toNat_lt⟩
  simpa using hb

/-- The result of `UINT64` arithmetic. -/
def u64 (n : ℕ) : ℕ := n % 2 ^ 64

lemma u64_of_lt {n : ℕ} (h : n < 2 ^ 64) : u64 n = n := Nat.mod_eq_of_lt h

lemma u64_lt (n : ℕ) : u64 n < 2 ^ 64 := Nat.mod_lt _ (by decide)

lemma u64_of_ge {n : ℕ} (h₁ : 2 ^ 64 ≤ n) (h₂ : n < 2 ^ 65) : u64 n = n - 2 ^ 64 := by
  unfold u64
  omega

/-- The result of `UINT32` arithmetic. -/
def u32 (n : ℕ) : ℕ := n % 2 ^ 32

lemma u32_of_lt {n : ℕ} (h : n < 2 ^ 32) : u32 n = n := Nat.mod_eq_of_lt h

lemma u32_lt (n : ℕ) : u32 n < 2 ^ 32 := Nat.mod_lt _ (by decide)

lemma u32_of_ge {n : ℕ} (h₁ : 2 ^ 32 ≤ n) (h₂ : n < 2 ^ 33) : u32 n = n - 2 ^ 32 := by
  unfold u32
  omega

/-- `UINT32` subtraction. -/
def sub32 (m n : ℕ) : ℕ := u32 (m + (2 ^ 32 - n))

lemma sub32_of_le {m n : ℕ} (h : n ≤ m) (hm : m < 2 ^ 32) : sub32 m n = m - n := by
  unfold sub32 u32
  omega

/-- `UINT64` subtraction. -/
def sub64 (m n : ℕ) : ℕ := u64 (m + (2 ^ 64 - n))

lemma sub64_of_le {m n : ℕ} (h : n ≤ m) (hm : m < 2 ^ 64) : sub64 m n = m - n := by
  unfold sub64 u64
  omega

/-- Handles are opaque pointers; `0` is `NULL`. -/
abbrev Handle := ℕ

/-! ### Memory attributes -/

abbrev efiMemoryUc : BitVec 64 := 0x0000000000000001
abbrev efiMemoryWc : BitVec 64 := 0x0000000000000002
abbrev efiMemoryWt : BitVec 64 := 0x0000000000000004
abbrev efiMemoryWb : BitVec 64 := 0x0000000000000008
abbrev efiMemoryUce : BitVec 64 := 0x0000000000000010
abbrev efiMemoryWp : BitVec 64 := 0x0000000000001000
abbrev efiMemoryRp : BitVec 64 := 0x0000000000002000
abbrev efiMemoryXp : BitVec 64 := 0x0000000000004000
abbrev efiMemoryMoreReliable : BitVec 64 := 0x0000000000010000
abbrev efiMemoryRo : BitVec 64 := 0x0000000000020000
abbrev efiMemoryPresent : BitVec 64 := 0x0100000000000000
abbrev efiMemoryInitialized : BitVec 64 := 0x0200000000000000
abbrev efiMemoryTested : BitVec 64 := 0x0400000000000000
abbrev efiMemoryPortIo : BitVec 64 := 0x4000000000000000
abbrev efiMemoryRuntime : BitVec 64 := 0x8000000000000000

/-- `EFI_PAGE_SHIFT`, `EFI_PAGE_SIZE`. -/
abbrev efiPageShift : ℕ := 12
abbrev efiPageSize : ℕ := 4096

/-- `Value & ~(2^Alignment - 1)`. -/
def alignDown (value alignment : ℕ) : ℕ := value - value % 2 ^ alignment

lemma alignDown_le (value alignment : ℕ) : alignDown value alignment ≤ value := Nat.sub_le _ _

/-- `AlignValue`: `Alignment` is the logarithm of the boundary. -/
def alignValue (value alignment : ℕ) (roundUp : Bool) : ℕ :=
  alignDown (if roundUp then u64 (value + (2 ^ alignment - 1)) else value) alignment

def pageAlignAddress (value : ℕ) : ℕ := alignValue value efiPageShift true

end Edk2
