import Edk2.Variable.DxeKeeps

/-!
# Converting a store to the authenticated format

`ConvertNormalVarStorageToAuthVarStorage` goes through a normal store twice: first it sizes the new
store, then it copies the added variables. Both loops go on to the end of the store, whatever the
start identifiers are. Every copy lies where the first loop left room for it.
-/

namespace Edk2.VariableDxe

open Variable Bytes Halting

variable {g : Global} {s b : Region} {bytes bytes' : Bytes} {stop fuel ptr last p q n e base : ℕ}
  {l l' : List ℕ}

/-- The headers that a loop reaches up to the end of the store. -/
def reachedFrom (bytes : Bytes) (stop : ℕ) : ℕ → ℕ → List ℕ
  | 0, _ => []
  | fuel + 1, ptr =>
    if ptr < stop then ptr :: reachedFrom bytes stop fuel (nextAt bytes false ptr) else []

def Region.reached (s : Region) : List ℕ :=
  reachedFrom s.bytes s.endPtr (s.endPtr - s.startPtr) s.startPtr

/-- The size of the new store with one more variable. -/
def authSizeAfter (s : Region) (size p : ℕ) : ℕ :=
  let header := headerAt s.bytes p
  headerAlign size + getVariableHeaderSize true + nameSize header false + dataSize header false

/-- A part of a variable, with its offsets in the authenticated and in the normal format. -/
structure Copied where
  auth : ℕ
  normal : ℕ
  size : ℕ

/-- The parts that are copied: the identifier, the state, the attributes, the two sizes, the GUID, the
name and the data. -/
def copiedParts (header : Bytes) : List Copied :=
  [⟨0, 0, 2⟩, ⟨2, 2, 1⟩, ⟨4, 4, 4⟩, ⟨36, 8, 4⟩, ⟨40, 12, 4⟩, ⟨44, 16, 16⟩,
    ⟨getVariableNamePtr 0 true, getVariableNamePtr 0 false, nameSize header false⟩,
    ⟨getVariableNamePtr 0 true + nameSize header false, getVariableDataPtr 0 header false,
      dataSize header false⟩]

def convertVariable (s : Region) (state : Region × ℕ) (p : ℕ) : Except Fault (Region × ℕ) := do
  let header := headerAt s.bytes p
  if Variable.state header = varAdded then
    let authStartPtr := headerAlign state.2
    let buffer ← (copiedParts header).foldlM (fun (b : Region) c =>
      b.write (authStartPtr + c.auth) (readBytes s.bytes (p + c.normal) c.size)) state.1
    return (buffer, authStartPtr + getVariableHeaderSize true + nameSize header false +
      dataSize header false)
  else return state

def convertNormalVarStorageToAuthVarStorage (g : Global)
    (allocateRuntimeZeroPool : ℕ → Option Region) (s : Region) :
    Except Fault (Option Region) := do
  let size := s.reached.foldl (fun size p =>
    if state (headerAt s.bytes p) = varAdded then authSizeAfter s size p else size)
    variableStoreHeaderSize
  match allocateRuntimeZeroPool size with
  | none => if g.asserts then throw .assert else return none
  | some buffer =>
    let (buffer, authStartPtr) ← s.reached.foldlM (convertVariable s) (buffer, buffer.startPtr)
    let authSize := (authStartPtr - buffer.base) % 2 ^ 32
    let buffer ← buffer.write (buffer.base + 20) (readBytes s.bytes (s.base + 20) 1)
    let buffer ← buffer.write (buffer.base + 21) (readBytes s.bytes (s.base + 21) 1)
    let buffer ← buffer.write (buffer.base + 16) (field 4 authSize)
    let buffer ← buffer.write buffer.base (field 16 gEfiAuthenticatedVariableGuid)
    if g.asserts ∧ size < authSize then throw .assert
    return some buffer

/-- The variable at `p` is added. -/
def Region.isAddedAt (s : Region) (p : ℕ) : Bool := state (headerAt s.bytes p) = varAdded

/-- The added variables that the loops reach. -/
def Region.reachedAdded (s : Region) : List ℕ := s.reached.filter s.isAddedAt

/-- The added variables that a walk visits. -/
def Region.visitedAdded (s : Region) : List ℕ := (s.visited false).filter s.isAddedAt

/-- The size of the new store with these variables. -/
def authSizeOf (s : Region) (l : List ℕ) : ℕ := l.foldl (authSizeAfter s) variableStoreHeaderSize

lemma reachedFrom_trace (h : Trace bytes false stop ptr l last) (hptr : ptr ≠ 0)
    (hfuel : stop - ptr ≤ fuel) : ∃ rest, reachedFrom bytes stop fuel ptr = l ++ rest ∧
      ∀ p ∈ rest.head?, isValidVariableHeader (headerAt bytes p) = false := by
  induction h generalizing fuel with
  | @done ptr hv =>
    refine ⟨_, (List.nil_append _).symm, ?_⟩
    intro p hp
    cases fuel with
    | zero => cases hp
    | succ fuel =>
      unfold reachedFrom at hp
      split_ifs at hp with hlt
      · cases hp
        rw [Bool.eq_false_iff]
        intro hval
        rw [isValidAt_iff.mpr ⟨hptr, hlt, hval⟩] at hv
        cases hv
      · cases hp
  | @next ptr last l hv _ ih =>
    obtain ⟨-, hlt, -⟩ := isValidAt_iff.mp hv
    have hnext := lt_nextAt bytes false ptr
    obtain ⟨fuel, rfl⟩ : ∃ k, fuel = k + 1 := ⟨fuel - 1, by omega⟩
    obtain ⟨rest, hrest, hhead⟩ := @ih fuel (by omega) (by omega)
    refine ⟨rest, ?_, hhead⟩
    unfold reachedFrom
    rw [if_pos hlt, hrest]
    rfl

lemma reachedAdded_eq (s : Region) : ∃ rest, s.reachedAdded = s.visitedAdded ++ rest := by
  obtain ⟨rest, hrest, -⟩ := reachedFrom_trace (s.trace false) s.startPtr_ne_zero le_rfl
  refine ⟨rest.filter s.isAddedAt, ?_⟩
  unfold Region.reachedAdded Region.visitedAdded Region.reached
  rw [hrest, List.filter_append]

lemma visitedAdded_valid (hp : p ∈ s.visitedAdded) :
    isValidVariableHeader (headerAt s.bytes p) = true := by
  have hvis := (List.mem_filter.mp hp).1
  exact (isValidAt_iff.mp ((s.trace false).bounds.2 p hvis).2.2).2.2

lemma headerAlign_add (hbase : base % 4 = 0) : headerAlign (base + n) = base + headerAlign n := by
  unfold headerAlign
  omega

lemma le_authSizeAfter (s : Region) (n p : ℕ) : headerAlign n + 60 ≤ authSizeAfter s n p := by
  unfold authSizeAfter getVariableHeaderSize
  simp only [if_true]
  omega

lemma foldl_authSizeAfter_ge (s : Region) (l : List ℕ) (n : ℕ) :
    n ≤ l.foldl (authSizeAfter s) n := by
  induction l generalizing n with
  | nil => exact le_rfl
  | cons p l ih =>
    grind [headerAlign_ge, le_authSizeAfter]

lemma size_eq_authSizeOf (s : Region) : s.reached.foldl (fun size p =>
    if state (headerAt s.bytes p) = varAdded then authSizeAfter s size p else size)
      variableStoreHeaderSize = authSizeOf s s.reachedAdded := by
  unfold authSizeOf Region.reachedAdded
  rw [List.foldl_filter]
  congr 1
  funext size p
  simp only [Region.isAddedAt, decide_eq_true_eq]

/-- At `q` lies an authenticated copy of the normal variable at `p`. -/
def IsCopy (s : Region) (bytes : Bytes) (p q : ℕ) : Prop :=
  ∀ c ∈ copiedParts (headerAt s.bytes p), ∀ i < c.size,
    bytes (q + c.auth + i) = s.bytes (p + c.normal + i)

/-- The copies of these variables, one behind the other from the offset `n` to the offset `e`. -/
def Laid (s : Region) (bytes : Bytes) (base : ℕ) : ℕ → List ℕ → ℕ → Prop
  | n, [], e => n = e
  | n, p :: l, e => IsCopy s bytes p (base + headerAlign n) ∧
      Laid s bytes base (authSizeAfter s n p) l e

lemma Laid.end_eq (h : Laid s bytes base n l e) : e = l.foldl (authSizeAfter s) n := by
  induction l generalizing n with
  | nil => exact h.symm
  | cons p l ih => exact ih h.2

lemma Laid.le (h : Laid s bytes base n l e) : n ≤ e := by
  rw [h.end_eq]
  exact foldl_authSizeAfter_ge s l n

lemma copiedParts_le {c : Copied} (hc : c ∈ copiedParts (headerAt s.bytes p)) :
    headerAlign n + c.auth + c.size ≤ authSizeAfter s n p := by
  unfold authSizeAfter
  simp only [copiedParts, List.mem_cons, List.not_mem_nil, or_false] at hc
  rcases hc with rfl | rfl | rfl | rfl | rfl | rfl | rfl | rfl <;>
    simp only [getVariableNamePtr, getVariableHeaderSize, if_true] <;> omega

lemma IsCopy.congr (h : IsCopy s bytes p (base + headerAlign n))
    (hsame : ∀ i, headerAlign n ≤ i → i < authSizeAfter s n p →
      bytes' (base + i) = bytes (base + i)) : IsCopy s bytes' p (base + headerAlign n) := by
  intro c hc i hi
  have hle := @copiedParts_le s p n c hc
  rw [← h c hc i hi, Nat.add_assoc, Nat.add_assoc]
  exact hsame _ (by omega) (by omega)

lemma Laid.congr (h : Laid s bytes base n l e)
    (hsame : ∀ i, n ≤ i → i < e → bytes' (base + i) = bytes (base + i)) :
    Laid s bytes' base n l e := by
  induction l generalizing n with
  | nil => exact h
  | cons p l ih =>
    have hali := headerAlign_ge n
    have hle := h.2.le
    have hone := le_authSizeAfter s n p
    exact ⟨h.1.congr fun i hi hlt => hsame i (by omega) (by omega),
      ih h.2 fun i hi hlt => hsame i (by omega) hlt⟩

lemma Laid.append (h : Laid s bytes base n l e) (hcopy : IsCopy s bytes p (base + headerAlign e)) :
    Laid s bytes base n (l ++ [p]) (authSizeAfter s e p) := by
  induction l generalizing n with
  | nil =>
    cases h
    exact ⟨hcopy, rfl⟩
  | cons q l ih => exact ⟨h.1, ih h.2⟩

/-! ### The copying loop -/

lemma copiedParts_sorted (header : Bytes) : (copiedParts header).Pairwise
    fun c c' => c.auth + c.size ≤ c'.auth := by
  simp only [copiedParts, List.pairwise_cons, List.mem_cons, List.not_mem_nil, or_false]
  simp [getVariableNamePtr, getVariableHeaderSize]
  omega

lemma foldlM_write {pieces : List Copied} {a : ℕ} {src : Copied → List UInt8}
    (h : ∀ c ∈ pieces, b.Holds (a + c.auth) (src c).length) :
    pieces.foldlM (fun (b : Region) c => b.write (a + c.auth) (src c)) b =
      .ok { b with bytes := writePieces b.bytes (pieces.map fun c => (a + c.auth, src c)) } := by
  induction pieces generalizing b with
  | nil => rfl
  | cons c pieces ih =>
    have hrest := @ih { b with bytes := writeBytes b.bytes (a + c.auth) (src c) }
      fun c hc => h c (List.mem_cons_of_mem _ hc)
    rw [List.foldlM_cons, write_of_holds (h c List.mem_cons_self), ok_bind]
    exact hrest

/-- The new store while it is built: the copies of the variables of the list, in memory that holds
them. -/
structure Converting (s b₀ : Region) (l : List ℕ) (state : Region × ℕ) : Prop where
  base_eq : state.1.base = b₀.base
  size_eq : state.1.size = b₀.size
  pos : state.2 = b₀.base + authSizeOf s l
  laid : Laid s state.1.bytes b₀.base variableStoreHeaderSize l (authSizeOf s l)

lemma authSizeOf_append (s : Region) (l : List ℕ) (p : ℕ) :
    authSizeOf s (l ++ [p]) = authSizeAfter s (authSizeOf s l) p := by
  unfold authSizeOf
  rw [List.foldl_append]
  rfl

lemma authSizeOf_le_append (s : Region) (l l' : List ℕ) :
    authSizeOf s l ≤ authSizeOf s (l ++ l') := by
  unfold authSizeOf
  rw [List.foldl_append]
  exact foldl_authSizeAfter_ge s l' _

lemma Converting.step {state : Region × ℕ} (h : Converting s b l state) (hbase : b.base % 4 = 0)
    (hp : s.isAddedAt p = true) (hroom : authSizeOf s (l ++ [p]) ≤ b.size) :
    ∃ state', convertVariable s state p = .ok state' ∧ Converting s b (l ++ [p]) state' := by
  have hadd : Variable.state (headerAt s.bytes p) = varAdded := of_decide_eq_true hp
  rw [authSizeOf_append] at hroom
  have hsta : headerAlign state.2 = b.base + headerAlign (authSizeOf s l) := by
    rw [h.pos, headerAlign_add hbase]
  have hhol : ∀ c ∈ copiedParts (headerAt s.bytes p), state.1.Holds (headerAlign state.2 + c.auth)
      (readBytes s.bytes (p + c.normal) c.size).length := by
    intro c hc
    have hle := @copiedParts_le s p (authSizeOf s l) c hc
    unfold Region.Holds
    rw [h.base_eq, h.size_eq, hsta, length_readBytes]
    omega
  have hwri := foldlM_write hhol
  unfold convertVariable
  simp only [hadd, if_true, hwri]
  refine ⟨_, rfl, h.base_eq, h.size_eq, ?_, ?_⟩
  · simp [authSizeOf_append, hsta, Nat.add_assoc, authSizeAfter]
  · rw [authSizeOf_append]
    apply Laid.append
    · -- the earlier copies lie in front
      refine h.laid.congr fun i _ hi => ?_
      apply writePieces_of_apart
      intro piece hpie
      obtain ⟨c, -, rfl⟩ := List.mem_map.mp hpie
      have hali := headerAlign_ge (authSizeOf s l)
      left
      change _ < headerAlign state.2 + c.auth
      omega
    · intro c hc i hi
      rw [← hsta]
      apply writePieces_of_getElem?
      · grind [length_readBytes, copiedParts_sorted]
      · exact List.mem_map_of_mem hc
      · exact Nat.le_add_right _ _
      · rw [Nat.add_sub_cancel_left]
        exact readBytes_getElem? hi

lemma Converting.run {state : Region × ℕ} (h : Converting s b l state) (hbase : b.base % 4 = 0)
    (hroom : authSizeOf s (l ++ l'.filter s.isAddedAt) ≤ b.size) :
    ∃ state', l'.foldlM (convertVariable s) state = .ok state' ∧
      Converting s b (l ++ l'.filter s.isAddedAt) state' := by
  induction l' generalizing l state with
  | nil => exact ⟨state, rfl, by simpa using h⟩
  | cons p l' ih =>
    by_cases hp : s.isAddedAt p = true
    · rw [List.filter_cons_of_pos hp, List.append_cons] at hroom ⊢
      have hle := le_trans (authSizeOf_le_append s (l ++ [p]) _) hroom
      obtain ⟨state₁, hstep, hsta₁⟩ := h.step hbase hp hle
      obtain ⟨state₂, hrun, hsta₂⟩ := ih hsta₁ hroom
      refine ⟨state₂, ?_, hsta₂⟩
      rw [List.foldlM_cons, hstep, ok_bind, hrun]
    · rw [List.filter_cons_of_neg hp] at hroom ⊢
      obtain ⟨state₂, hrun, hsta₂⟩ := ih h hroom
      refine ⟨state₂, ?_, hsta₂⟩
      have hstay : convertVariable s state p = .ok state := by
        unfold convertVariable
        rw [if_neg (by simpa [Region.isAddedAt] using hp)]
        rfl
      rw [List.foldlM_cons, hstay, ok_bind, hrun]

end Edk2.VariableDxe
