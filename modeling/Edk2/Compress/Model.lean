import Mathlib.Algebra.Order.Group.Nat
import Mathlib.Tactic.Common

/-!
# The Huffman codes of the compressor

`EfiCompress.c`: `MakeTree` joins the two symbols or trees of the least frequency until one tree is
left. `MakeLen` counts the leaves at each level, raises those that lie too deep, and hands out the
lengths to the symbols in the order in which they were joined; `MakeCode` assigns the codes.

Arrays are functions of their indices. There are at most `NC` symbols, so that no cast changes the
number of a node. A loop that is cut off returns `none`.
-/

namespace Edk2.EfiCompress

open Function (update)

/-- The longest code, `CODE_BIT`. -/
abbrev codeBit : ℕ := 16

/-- `CountLen`, from a node at the given depth on. -/
def countLen (n : ℕ) (mLeft mRight : ℕ → ℕ) : ℕ → ℕ → ℕ → (ℕ → ℕ) → Option (ℕ → ℕ)
  | 0, _, _, _ => none
  | fuel + 1, depth, i, mLenCnt =>
    if i < n then
      let level := if depth < 16 then depth else 16
      some (update mLenCnt level ((mLenCnt level + 1) % 2 ^ 16))
    else do
      let mLenCnt ← countLen n mLeft mRight fuel (depth + 1) (mLeft i) mLenCnt
      countLen n mLeft mRight fuel (depth + 1) (mRight i) mLenCnt

/-- `MakeLen`, the weight of the counted leaves. -/
def cumulate (mLenCnt : ℕ → ℕ) : ℕ → ℕ
  | 0 => 0
  | i + 1 => (mLenCnt (i + 1) * 2 ^ (16 - (i + 1)) + cumulate mLenCnt i) % 2 ^ 32

/-- A leaf of the deepest level from `i` up that has one becomes a node with two leaves. -/
def splitLeaf (mLenCnt : ℕ → ℕ) : ℕ → ℕ → ℕ
  | 0 => mLenCnt
  | i + 1 =>
    if mLenCnt (i + 1) ≠ 0 then
      let mLenCnt := update mLenCnt (i + 1) ((mLenCnt (i + 1) + 2 ^ 16 - 1) % 2 ^ 16)
      update mLenCnt (i + 2) ((mLenCnt (i + 2) + 2) % 2 ^ 16)
    else splitLeaf mLenCnt i

/-- The loop of `MakeLen` that makes the leaves weigh less. -/
def adjust : ℕ → ℕ → (ℕ → ℕ) → Option (ℕ → ℕ)
  | 0, _, _ => none
  | fuel + 1, cum, mLenCnt =>
    if cum = 2 ^ 16 then some mLenCnt
    else
      let mLenCnt := update mLenCnt 16 ((mLenCnt 16 + 2 ^ 16 - 1) % 2 ^ 16)
      adjust fuel ((cum + 2 ^ 32 - 1) % 2 ^ 32) (splitLeaf mLenCnt 15)

/-- The next `k` sorted symbols get the length `i`. -/
def assignLevel (sorted : ℕ → ℕ) (i : ℕ) : ℕ → ℕ → (ℕ → ℕ) → ℕ × (ℕ → ℕ)
  | 0, mSortPtr, mLen => (mSortPtr, mLen)
  | k + 1, mSortPtr, mLen =>
    assignLevel sorted i k (mSortPtr + 1) (update mLen (sorted mSortPtr) i)

/-- The symbols get their lengths, from the level `i` up. -/
def assignLens (sorted mLenCnt : ℕ → ℕ) : ℕ → ℕ → (ℕ → ℕ) → (ℕ → ℕ)
  | 0, _, mLen => mLen
  | i + 1, mSortPtr, mLen =>
    let next := assignLevel sorted (i + 1) (mLenCnt (i + 1)) mSortPtr mLen
    assignLens sorted mLenCnt i next.1 next.2

/-- `MakeLen`. It returns the counts and the lengths. -/
def makeLen (n : ℕ) (mLeft mRight sorted mLenCnt mLen : ℕ → ℕ) (root : ℕ) :
    Option ((ℕ → ℕ) × (ℕ → ℕ)) := do
  let mLenCnt ← countLen n mLeft mRight (root + 1) 0 root fun i => if i ≤ 16 then 0 else mLenCnt i
  let cum := cumulate mLenCnt 16
  let mLenCnt ← adjust (cum + 1) cum mLenCnt
  return (mLenCnt, assignLens sorted mLenCnt 16 0 mLen)

/-! ### The heap -/

/-- The loop of `DownHeap`, which sends the entry `k` down from `i`. -/
def downHeapFrom (mFreq : ℕ → ℕ) (mHeapSize k : ℕ) : ℕ → (ℕ → ℕ) → ℕ → Option (ℕ → ℕ)
  | 0, _, _ => none
  | fuel + 1, mHeap, i =>
    if 2 * i ≤ mHeapSize then
      let j := if 2 * i < mHeapSize ∧ mFreq (mHeap (2 * i)) > mFreq (mHeap (2 * i + 1))
        then 2 * i + 1 else 2 * i
      if mFreq k ≤ mFreq (mHeap j) then some (update mHeap i k)
      else downHeapFrom mFreq mHeapSize k fuel (update mHeap i (mHeap j)) j
    else some (update mHeap i k)

def downHeap (mFreq : ℕ → ℕ) (mHeapSize : ℕ) (mHeap : ℕ → ℕ) (i : ℕ) : Option (ℕ → ℕ) :=
  downHeapFrom mFreq mHeapSize (mHeap i) (mHeapSize + 1) mHeap i

/-! ### The tree -/

structure TreeState where
  mFreq : ℕ → ℕ
  mHeap : ℕ → ℕ
  mHeapSize : ℕ
  mLeft : ℕ → ℕ
  mRight : ℕ → ℕ
  avail : ℕ
  /-- The sorted symbols, which lie where the codes will be. -/
  sorted : ℕ → ℕ
  mSortPtr : ℕ

/-- A symbol is the next one in the order. -/
def TreeState.sort (n i : ℕ) (s : TreeState) : TreeState :=
  if i < n then { s with sorted := update s.sorted s.mSortPtr i, mSortPtr := s.mSortPtr + 1 } else s

/-- The two least entries of the heap become one. -/
def TreeState.join (n : ℕ) (s : TreeState) : Option TreeState := do
  let i := s.mHeap 1
  let s := s.sort n i
  let mHeap := update s.mHeap 1 (s.mHeap s.mHeapSize)
  let mHeapSize := s.mHeapSize - 1
  let mHeap ← downHeap s.mFreq mHeapSize mHeap 1
  let j := mHeap 1
  let s := s.sort n j
  let k := s.avail
  let mFreq := update s.mFreq k ((s.mFreq i + s.mFreq j) % 2 ^ 16)
  let mHeap ← downHeap mFreq mHeapSize (update mHeap 1 k) 1
  return { s with
    mFreq := mFreq
    mHeap := mHeap
    mHeapSize := mHeapSize
    mLeft := update s.mLeft k i
    mRight := update s.mRight k j
    avail := k + 1 }

/-- The main loop of `MakeTree`, which runs at least once. -/
def TreeState.joinAll (n : ℕ) : ℕ → TreeState → Option TreeState
  | 0, _ => none
  | fuel + 1, s => do
    let s ← s.join n
    if s.mHeapSize > 1 then s.joinAll n fuel else return s

/-- `MakeTree`, the heap of the symbols that occur. -/
def collect (mFreq : ℕ → ℕ) : ℕ → (ℕ → ℕ) × ℕ → (ℕ → ℕ) × ℕ
  | 0, heap => heap
  | n + 1, heap =>
    let (mHeap, mHeapSize) := collect mFreq n heap
    if mFreq n ≠ 0 then (update mHeap (mHeapSize + 1) n, mHeapSize + 1) else (mHeap, mHeapSize)

/-- `MakeTree`, the priority queue, from the entry `i` up. -/
def heapify (mFreq : ℕ → ℕ) (mHeapSize : ℕ) : ℕ → (ℕ → ℕ) → Option (ℕ → ℕ)
  | 0, mHeap => some mHeap
  | i + 1, mHeap => do
    let mHeap ← downHeap mFreq mHeapSize mHeap (i + 1)
    heapify mFreq mHeapSize i mHeap

/-! ### Codes -/

/-- `MakeCode`, the first code of each length; `Start[0]` is not set. -/
def startCodes (mLenCnt stack : ℕ → ℕ) : ℕ → ℕ → ℕ
  | 0 => update stack 1 0
  | i + 1 =>
    let start := startCodes mLenCnt stack i
    update start (i + 2) (2 * (start (i + 1) + mLenCnt (i + 1)) % 2 ^ 16)

/-- `MakeCode`, the codes of the first symbols, with the next code of each length. -/
def assignCodes (len : ℕ → ℕ) : ℕ → (ℕ → ℕ) × (ℕ → ℕ) → (ℕ → ℕ) × (ℕ → ℕ)
  | 0, codes => codes
  | n + 1, codes =>
    let (start, code) := assignCodes len n codes
    (update start (len n) ((start (len n) + 1) % 2 ^ 16), update code n (start (len n)))

def makeCode (mLenCnt len stack code : ℕ → ℕ) (n : ℕ) : ℕ → ℕ :=
  (assignCodes len n (startCodes mLenCnt stack 16, code)).2

/-- What `MakeTree` computes: the root, the lengths and the codes. -/
structure Tree where
  root : ℕ
  len : ℕ → ℕ
  code : ℕ → ℕ

/-- The arrays before `MakeTree` is called, and the stack that `Start` will lie on. -/
structure Arrays where
  mHeap : ℕ → ℕ
  mLeft : ℕ → ℕ
  mRight : ℕ → ℕ
  mLenCnt : ℕ → ℕ
  len : ℕ → ℕ
  code : ℕ → ℕ
  stack : ℕ → ℕ

def makeTree (nParm : ℕ) (freqParm : ℕ → ℕ) (a : Arrays) : Option Tree := do
  let (mHeap, mHeapSize) := collect freqParm nParm (update a.mHeap 1 0, 0)
  let mLen := fun i => if i < nParm then 0 else a.len i
  if mHeapSize < 2 then
    return ⟨mHeap 1, mLen, update a.code (mHeap 1) 0⟩
  else
    let mHeap ← heapify freqParm mHeapSize (mHeapSize / 2) mHeap
    let s ← TreeState.joinAll nParm mHeapSize
      ⟨freqParm, mHeap, mHeapSize, a.mLeft, a.mRight, nParm, a.code, 0⟩
    let root := s.avail - 1
    let (mLenCnt, mLen) ← makeLen nParm s.mLeft s.mRight s.sorted a.mLenCnt mLen root
    return ⟨root, mLen, makeCode mLenCnt mLen a.stack s.sorted nParm⟩

end Edk2.EfiCompress
