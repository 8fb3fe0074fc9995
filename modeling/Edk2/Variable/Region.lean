import Edk2.Lib.Bytes
import Edk2.Lib.Halting
import Edk2.Variable.PeiRead

/-!
# Walking through a variable store

The DXE driver walks from header to header while the start identifier is right. `Trace` is such a
walk, and `walkFrom` computes it. Stores lie in regions of memory; to read or write bytes outside of
the region is a fault.
-/

namespace Edk2.VariableDxe

open Variable Bytes Halting

inductive Fault
  /-- Bytes outside of the region are accessed. -/
  | outside
  /-- An `ASSERT` failed. -/
  | assert
  /-- A loop was cut off. -/
  | running
deriving DecidableEq, Repr

structure Region where
  bytes : Bytes
  base : ℕ
  size : ℕ

/-- The `n` bytes at `a` lie in the region. -/
def Region.Holds (r : Region) (a n : ℕ) : Prop := r.base ≤ a ∧ a + n ≤ r.base + r.size

instance (r : Region) (a n : ℕ) : Decidable (r.Holds a n) := inferInstanceAs (Decidable (_ ∧ _))

/-- The `n` bytes at `a` are read. -/
def Region.touch (r : Region) (a n : ℕ) : Except Fault Unit :=
  if r.Holds a n then .ok () else .error .outside

def Region.write (r : Region) (a : ℕ) (bytes : List UInt8) : Except Fault Region :=
  if r.Holds a bytes.length then .ok { r with bytes := writeBytes r.bytes a bytes }
  else .error .outside

section Region

variable {α β : Type} {r r' : Region} {a n : ℕ} {b : β}

lemma touch_of_holds (h : r.Holds a n) : r.touch a n = .ok () := if_pos h

lemma touch_eq_ok {u : Unit} : r.touch a n = .ok u ↔ r.Holds a n := by
  unfold Region.touch
  split_ifs with h
  · exact ⟨fun _ => h, fun _ => rfl⟩
  · exact ⟨nofun, fun h' => absurd h' h⟩

lemma touch_bind {f : Unit → Except Fault β} :
    (r.touch a n >>= f) = .ok b ↔ r.Holds a n ∧ f () = .ok b := by
  rw [bind_eq_ok]
  constructor
  · rintro ⟨u, hu, hf⟩
    exact ⟨touch_eq_ok.mp hu, hf⟩
  · rintro ⟨hu, hf⟩
    exact ⟨(), touch_eq_ok.mpr hu, hf⟩

lemma write_of_holds {bytes : List UInt8} (h : r.Holds a bytes.length) :
    r.write a bytes = .ok { r with bytes := writeBytes r.bytes a bytes } := if_pos h

lemma write_eq_ok {bytes : List UInt8} : r.write a bytes = .ok r' ↔
    r.Holds a bytes.length ∧ r' = { r with bytes := writeBytes r.bytes a bytes } := by
  unfold Region.write
  split_ifs with h
  · simp [h, eq_comm]
  · simp [h]

lemma Region.Holds.mono {n' : ℕ} {a' : ℕ} (h : r.Holds a n) (ha : a ≤ a') (hn : a' + n' ≤ a + n) :
    r.Holds a' n' := ⟨le_trans h.1 ha, le_trans hn h.2⟩

end Region

/-- `IsValidVariableHeader` with the end of the store. -/
def isValidAt (bytes : Bytes) (stop ptr : ℕ) : Bool :=
  ptr ≠ 0 ∧ ptr < stop ∧ isValidVariableHeader (headerAt bytes ptr)

/-- A walk from a header on, the headers that it visits, and where it ends. -/
inductive Trace (bytes : Bytes) (authFlag : Bool) (stop : ℕ) : ℕ → List ℕ → ℕ → Prop
  | done {ptr : ℕ} : isValidAt bytes stop ptr = false → Trace bytes authFlag stop ptr [] ptr
  | next {ptr last : ℕ} {l : List ℕ} : isValidAt bytes stop ptr = true →
      Trace bytes authFlag stop (nextAt bytes authFlag ptr) l last →
      Trace bytes authFlag stop ptr (ptr :: l) last

/-- The headers on the walk, and its end. -/
def walkFrom (bytes : Bytes) (authFlag : Bool) (stop : ℕ) : ℕ → ℕ → List ℕ × ℕ
  | 0, ptr => ([], ptr)
  | fuel + 1, ptr =>
    if isValidAt bytes stop ptr then
      let rest := walkFrom bytes authFlag stop fuel (nextAt bytes authFlag ptr)
      (ptr :: rest.1, rest.2)
    else ([], ptr)

variable {bytes bytes' : Bytes} {authFlag : Bool} {stop fuel ptr last last' : ℕ} {l l' : List ℕ}

lemma isValidAt_iff : isValidAt bytes stop ptr = true ↔
    ptr ≠ 0 ∧ ptr < stop ∧ isValidVariableHeader (headerAt bytes ptr) = true := by
  simp only [isValidAt, decide_eq_true_eq]

lemma lt_nextAt (bytes : Bytes) (authFlag : Bool) (ptr : ℕ) :
    ptr + 32 ≤ nextAt bytes authFlag ptr :=
  le_trans (Nat.add_le_add_left (headerSize_ge authFlag) ptr) (nextAt_ge bytes authFlag ptr)

lemma trace_walkFrom (h : stop - ptr < fuel) : Trace bytes authFlag stop ptr
    (walkFrom bytes authFlag stop fuel ptr).1 (walkFrom bytes authFlag stop fuel ptr).2 := by
  induction fuel generalizing ptr with
  | zero => exact absurd h (Nat.not_lt_zero _)
  | succ fuel ih =>
    unfold walkFrom
    by_cases hval : isValidAt bytes stop ptr = true
    · have hlt := (isValidAt_iff.mp hval).2.1
      have hnext := lt_nextAt bytes authFlag ptr
      rw [if_pos hval]
      exact .next hval (ih (by omega))
    · rw [if_neg hval]
      exact .done (by simpa using hval)

lemma Trace.unique (h : Trace bytes authFlag stop ptr l last)
    (h' : Trace bytes authFlag stop ptr l' last') : l = l' ∧ last = last' := by
  induction h generalizing l' with
  | done hv =>
    cases h' with
    | done => exact ⟨rfl, rfl⟩
    | next hv' => exact absurd hv' (by simp [hv])
  | next hv _ ih =>
    cases h' with
    | done hv' => exact absurd hv (by simp [hv'])
    | next _ h' =>
      obtain ⟨hl, hlast⟩ := ih h'
      exact ⟨by rw [hl], hlast⟩

lemma Trace.length_le (h : Trace bytes authFlag stop ptr l last) : l.length ≤ stop - ptr := by
  induction h with
  | done => exact Nat.zero_le _
  | @next ptr _ _ hv _ ih =>
    have hlt := (isValidAt_iff.mp hv).2.1
    have hnext := lt_nextAt bytes authFlag ptr
    rw [List.length_cons]
    omega

lemma Trace.bounds (h : Trace bytes authFlag stop ptr l last) :
    ptr ≤ last ∧ ∀ p ∈ l, ptr ≤ p ∧ nextAt bytes authFlag p ≤ last ∧
      isValidAt bytes stop p = true := by
  induction h with
  | done => exact ⟨le_rfl, by simp⟩
  | @next ptr _ _ hv _ ih =>
    grind [lt_nextAt]

/-- From `a` to `e` lie the given variables. -/
def Chain (bytes : Bytes) (authFlag : Bool) : ℕ → List StoredVariable → ℕ → Prop
  | a, [], e => a = e
  | a, v :: vars, e => isValidVariableHeader (headerAt bytes a) = true ∧
      variableAt bytes authFlag a = v ∧ Chain bytes authFlag (nextAt bytes authFlag a) vars e

section Chain

variable {a e : ℕ} {v : StoredVariable} {vars : List StoredVariable}

lemma Chain.le (h : Chain bytes authFlag a vars e) : a ≤ e := by
  induction vars generalizing a with
  | nil => exact le_of_eq h
  | cons v vars ih =>
    have hnext := lt_nextAt bytes authFlag a
    have hrest := ih h.2.2
    omega

lemma Chain.append (h : Chain bytes authFlag a vars e)
    (hval : isValidVariableHeader (headerAt bytes e) = true)
    (hv : variableAt bytes authFlag e = v) :
    Chain bytes authFlag a (vars ++ [v]) (nextAt bytes authFlag e) := by
  induction vars generalizing a with
  | nil =>
    cases h
    exact ⟨hval, hv, rfl⟩
  | cons w vars ih => exact ⟨h.1, h.2.1, ih h.2.2⟩

lemma Chain.trace (h : Chain bytes authFlag a vars e) (ha : a ≠ 0) (he : e ≤ stop)
    (hend : isValidAt bytes stop e = false) :
    ∃ l, Trace bytes authFlag stop a l e ∧ l.map (variableAt bytes authFlag) = vars := by
  induction vars generalizing a with
  | nil =>
    cases h
    exact ⟨[], .done hend, rfl⟩
  | cons v vars ih =>
    have hnext := lt_nextAt bytes authFlag a
    obtain ⟨l, hl, hmap⟩ := ih h.2.2 (by omega)
    have hlt : a < stop := by
      have hle := Chain.le h.2.2
      omega
    exact ⟨a :: l, .next (isValidAt_iff.mpr ⟨ha, hlt, h.1⟩) hl, by rw [List.map_cons, hmap, h.2.1]⟩

end Chain

section Moved

variable {p q e : ℕ} {vars : List StoredVariable}

lemma variableAt_of_same (h : ∀ i < nextAt bytes authFlag p - p, bytes' (q + i) = bytes (p + i)) :
    isValidVariableHeader (headerAt bytes' q) = isValidVariableHeader (headerAt bytes p) ∧
      variableAt bytes' authFlag q = variableAt bytes authFlag p ∧
      getVariableDataPtr q (headerAt bytes' q) authFlag +
        dataSizeOfVariable (headerAt bytes' q) authFlag + p =
      getVariableDataPtr p (headerAt bytes p) authFlag +
        dataSizeOfVariable (headerAt bytes p) authFlag + q := by
  have hsize := nextAt_ge bytes authFlag p
  have hsame : SameHeader authFlag (headerAt bytes' q) (headerAt bytes p) :=
    fun i hi => h i (by omega)
  have hend : getVariableDataPtr p (headerAt bytes p) authFlag +
      dataSizeOfVariable (headerAt bytes p) authFlag ≤ nextAt bytes authFlag p := headerAlign_ge _
  simp only [getVariableDataPtr, getVariableNamePtr] at hend
  refine ⟨hsame.isValid, ?_, ?_⟩
  · simp only [variableAt, hsame.state, hsame.attributes, hsame.vendorGuid, hsame.nameSize,
      hsame.dataSize, StoredVariable.mk.injEq, true_and, getVariableNamePtr, getVariableDataPtr]
    constructor
    · apply readBytes_congr
      intro i hi
      rw [Nat.add_assoc, Nat.add_assoc]
      exact h _ (by omega)
    · apply readBytes_congr
      intro i hi
      simp only [Nat.add_assoc]
      exact h _ (by omega)
  · simp only [getVariableDataPtr, getVariableNamePtr, hsame.nameSize, hsame.dataSize]
    omega

lemma Chain.congr {a : ℕ} (h : Chain bytes authFlag a vars e)
    (hsame : ∀ i, a ≤ i → i < e → bytes' i = bytes i) : Chain bytes' authFlag a vars e := by
  induction vars generalizing a with
  | nil => exact h
  | cons v vars ih =>
    obtain ⟨hval, hv, hrest⟩ := h
    have hle := hrest.le
    have hnext := lt_nextAt bytes authFlag a
    obtain ⟨hval', hv', hsize⟩ := @variableAt_of_same bytes bytes' authFlag a a
      fun i hi => hsame _ (by omega) (by omega)
    have hnex' : nextAt bytes' authFlag a = nextAt bytes authFlag a :=
      congrArg headerAlign (Nat.add_right_cancel hsize)
    refine ⟨hval'.trans hval, hv'.trans hv, ?_⟩
    rw [hnex']
    exact ih hrest fun i hi => hsame i (by omega)

end Moved

section Copy

variable {p q : ℕ}

lemma isErased_of_live {header : Bytes} (h : isLive header = true) : isErased header authFlag =
    decide (dataSize header authFlag = 2 ^ 32 - 1 ∨ nameSize header authFlag = 2 ^ 32 - 1 ∨
      attributes header = 2 ^ 32 - 1) := by
  have hsta : state header ≠ 2 ^ 8 - 1 := by
    grind [isLive]
  simp only [isErased, hsta, false_or]

lemma variableAt_of_copied
    (h : ∀ i < nextAt bytes authFlag p - p, i ≠ 2 → bytes' (q + i) = bytes (p + i))
    (hlive : isLive (headerAt bytes p) = true) (hliv' : isLive (headerAt bytes' q) = true) :
    isValidVariableHeader (headerAt bytes' q) = isValidVariableHeader (headerAt bytes p) ∧
      variableAt bytes' authFlag q =
        { variableAt bytes authFlag p with state := state (headerAt bytes' q) } ∧
      getVariableDataPtr q (headerAt bytes' q) authFlag +
        dataSizeOfVariable (headerAt bytes' q) authFlag + p =
      getVariableDataPtr p (headerAt bytes p) authFlag +
        dataSizeOfVariable (headerAt bytes p) authFlag + q := by
  have hsize := nextAt_ge bytes authFlag p
  have hword : ∀ o n, o + n ≤ getVariableHeaderSize authFlag → (o + n ≤ 2 ∨ 2 < o) →
      word (headerAt bytes' q) o n = word (headerAt bytes p) o n := by
    intro o n hle ho
    apply word_congr
    intro i hi
    exact h (o + i) (by omega) (by omega)
  have h32 := headerSize_ge authFlag
  have hatt : attributes (headerAt bytes' q) = attributes (headerAt bytes p) :=
    hword 4 4 (by omega) (by omega)
  have hname : nameSize (headerAt bytes' q) authFlag = nameSize (headerAt bytes p) authFlag := by
    apply hword <;> cases authFlag <;> decide
  have hdata : dataSize (headerAt bytes' q) authFlag = dataSize (headerAt bytes p) authFlag := by
    apply hword <;> cases authFlag <;> decide
  have hguid : vendorGuid (headerAt bytes' q) authFlag = vendorGuid (headerAt bytes p) authFlag := by
    apply hword <;> cases authFlag <;> decide
  have hera : isErased (headerAt bytes' q) authFlag = isErased (headerAt bytes p) authFlag := by
    rw [isErased_of_live hlive, isErased_of_live hliv', hatt, hname, hdata]
  have hnam : nameSizeOfVariable (headerAt bytes' q) authFlag =
      nameSizeOfVariable (headerAt bytes p) authFlag := by
    simp only [nameSizeOfVariable, hera, hname]
  have hdat : dataSizeOfVariable (headerAt bytes' q) authFlag =
      dataSizeOfVariable (headerAt bytes p) authFlag := by
    simp only [dataSizeOfVariable, hera, hdata]
  have hend : getVariableDataPtr p (headerAt bytes p) authFlag +
      dataSizeOfVariable (headerAt bytes p) authFlag ≤ nextAt bytes authFlag p := headerAlign_ge _
  refine ⟨?_, ?_, ?_⟩
  · have hid : startId (headerAt bytes' q) = startId (headerAt bytes p) :=
      hword 0 2 (by omega) (by omega)
    simp only [isValidVariableHeader, hid]
  · simp only [variableAt, hatt, hguid, hnam, hdat, StoredVariable.mk.injEq,
      true_and, getVariableNamePtr, getVariableDataPtr]
    simp only [getVariableDataPtr, getVariableNamePtr] at hend
    constructor
    · apply readBytes_congr
      intro i hi
      rw [Nat.add_assoc, Nat.add_assoc]
      exact h _ (by omega) (by omega)
    · apply readBytes_congr
      intro i hi
      simp only [Nat.add_assoc]
      exact h _ (by omega) (by omega)
  · simp only [getVariableDataPtr, getVariableNamePtr, hnam, hdat]
    omega

lemma headerAlign_mod (n : ℕ) : headerAlign n % 4 = 0 := Nat.mul_mod_left _ _

lemma nextAt_of_copied {header : Bytes} (hp : p % 4 = 0) (hq : q % 4 = 0)
    (h : getVariableDataPtr q header authFlag + dataSizeOfVariable header authFlag + p =
      getVariableDataPtr p (headerAt bytes p) authFlag +
        dataSizeOfVariable (headerAt bytes p) authFlag + q) :
    variableEnd q header authFlag = q + (nextAt bytes authFlag p - p) := by
  have hnext := lt_nextAt bytes authFlag p
  unfold nextAt variableEnd headerAlign at *
  omega

end Copy

end Edk2.VariableDxe
