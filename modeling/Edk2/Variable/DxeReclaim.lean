import Edk2.Variable.DxeFind

/-!
# The buffer of a reclaim

The buffer is a store of its own: the variables copied so far follow one another from its first header
on, and behind them it is erased. Each of the two copying loops returns exactly if what it reads lies
in the store, and leaves the buffer with the variables that it keeps.
-/

namespace Edk2.VariableDxe

open Variable Bytes Halting

variable {g : Global} {services : Services} {s b : Region} {r : Request} {authFlag : Bool}
  {fuel p q base size : ℕ} {l : List ℕ} {pass pass' : Pass} {vars : List StoredVariable}

/-- The size of the variable at `p`, up to the next header. -/
def sizeAt (s : Region) (authFlag : Bool) (p : ℕ) : ℕ := nextAt s.bytes authFlag p - p

lemma sizeAt_ge (s : Region) (authFlag : Bool) (p : ℕ) :
    getVariableHeaderSize authFlag + nameSizeOfVariable (headerAt s.bytes p) authFlag ≤
      sizeAt s authFlag p := by
  have hend : getVariableDataPtr p (headerAt s.bytes p) authFlag +
      dataSizeOfVariable (headerAt s.bytes p) authFlag ≤ nextAt s.bytes authFlag p :=
    headerAlign_ge _
  unfold sizeAt
  simp only [getVariableDataPtr, getVariableNamePtr] at hend
  omega

lemma sizeAt_mod (hp : p % 4 = 0) : sizeAt s authFlag p % 4 = 0 := by
  have hnext : nextAt s.bytes authFlag p % 4 = 0 := headerAlign_mod _
  unfold sizeAt
  omega

/-- A variable as it is after it was added. -/
def asAdded (v : StoredVariable) : StoredVariable := { v with state := varAdded }

/-- The two variables have the same name and GUID. -/
def sameKey (v w : StoredVariable) : Bool := v.guid = w.guid && v.name = w.name

/-- The variable at `p` is kept by the first loop. -/
def Request.keepsAdded (r : Request) (s : Region) (p : ℕ) : Bool :=
  !r.isUpdating p && state (headerAt s.bytes p) = varAdded

/-- The variable at `p` is a candidate of the second loop. -/
def Request.keepsInDeleted (r : Request) (s : Region) (p : ℕ) : Bool :=
  !r.isUpdating p && !r.isUpdatingInDeleted p && state (headerAt s.bytes p) = varInDeletedAdded

/-- The pass after the variable at `p` was copied. -/
def keep (g : Global) (services : Services) (s : Region) (r : Request) (pass : Pass) (p : ℕ) : Pass :=
  Pass.advance g services s r
    { pass with buffer := { pass.buffer with
        bytes := writeBytes pass.buffer.bytes pass.currPtr
          (readBytes s.bytes p (sizeAt s g.authFormat p)) } }
    p (nextAt s.bytes g.authFormat p)

/-- The pass after the variable at `p` was copied and added again. -/
def promote (g : Global) (services : Services) (s : Region) (r : Request) (pass : Pass) (p : ℕ) :
    Pass :=
  Pass.advance g services s r
    { pass with buffer := { pass.buffer with
        bytes := writeBytes (writeBytes pass.buffer.bytes pass.currPtr
          (readBytes s.bytes p (sizeAt s g.authFormat p))) (pass.currPtr + 2)
          [UInt8.ofNat varAdded] } }
    p (nextAt s.bytes g.authFormat p)

lemma reinstallAdded_eq_ok (hroom : s.Holds p (sizeAt s g.authFormat p) →
      pass.buffer.Holds pass.currPtr (sizeAt s g.authFormat p)) :
    reinstallAdded g services s r p (nextAt s.bytes g.authFormat p) pass = .ok pass' ↔
      (r.keepsAdded s p = true → s.Holds p (sizeAt s g.authFormat p)) ∧
        pass' = if r.keepsAdded s p then keep g services s r pass p else pass := by
  unfold reinstallAdded Request.keepsAdded
  by_cases hkeep : (!r.isUpdating p) = true ∧ state (headerAt s.bytes p) = varAdded
  · rw [if_pos hkeep, bind_eq_ok]
    have htrue : (!r.isUpdating p && decide (state (headerAt s.bytes p) = varAdded)) = true := by
      simp [hkeep.1, hkeep.2]
    rw [htrue, if_pos rfl]
    unfold copyVariable
    constructor
    · rintro ⟨pass₁, hcopy, h⟩
      obtain ⟨hhol, hcopy⟩ := touch_bind.mp hcopy
      obtain ⟨buffer, hbuf, hcopy⟩ := bind_eq_ok.mp hcopy
      obtain ⟨-, rfl⟩ := write_eq_ok.mp hbuf
      cases hcopy
      cases h
      exact ⟨fun _ => hhol, rfl⟩
    · rintro ⟨hhol, rfl⟩
      refine ⟨_, touch_bind.mpr ⟨hhol rfl, ?_⟩, rfl⟩
      refine bind_eq_ok.mpr ⟨_, write_of_holds ?_, rfl⟩
      rw [length_readBytes]
      exact hroom (hhol rfl)
  · rw [if_neg hkeep]
    have hfal : (!r.isUpdating p && decide (state (headerAt s.bytes p) = varAdded)) = false := by
      simpa using hkeep
    rw [hfal]
    constructor
    · intro h
      cases h
      exact ⟨nofun, rfl⟩
    · rintro ⟨-, rfl⟩
      rfl

/-- The buffer holds the variables of the list, and behind them it is erased. -/
structure Built (s : Region) (authFlag : Bool) (base size : ℕ) (pass : Pass)
    (vars : List StoredVariable) : Prop where
  base_eq : pass.buffer.base = base
  size_eq : pass.buffer.size = size
  aligned : base % 4 = 0
  header : ∀ i < 28, pass.buffer.bytes (base + i) = s.bytes (s.base + i)
  chain : Chain pass.buffer.bytes authFlag (base + 28) vars pass.currPtr
  mod : pass.currPtr % 4 = 0
  erased : ∀ a, pass.currPtr ≤ a → a < base + size → pass.buffer.bytes a = 0xff

lemma Built.extend (h : Built s authFlag base size pass vars) (hp : p % 4 = 0)
    (hval : isValidVariableHeader (headerAt s.bytes p) = true)
    (hlive : isLive (headerAt s.bytes p) = true) {bytes' : Bytes} {totals : Totals}
    (hbel : ∀ a < pass.currPtr, bytes' a = pass.buffer.bytes a)
    (hcopy : ∀ i < sizeAt s authFlag p, i ≠ 2 → bytes' (pass.currPtr + i) = s.bytes (p + i))
    (hsta : bytes' (pass.currPtr + 2) = UInt8.ofNat varAdded)
    (habo : ∀ a, pass.currPtr + sizeAt s authFlag p ≤ a → bytes' a = pass.buffer.bytes a) :
    Built s authFlag base size
      ⟨{ pass.buffer with bytes := bytes' }, pass.currPtr + sizeAt s authFlag p, totals⟩
      (vars ++ [asAdded (variableAt s.bytes authFlag p)]) := by
  have hle := h.chain.le
  have hsta' : state (headerAt bytes' pass.currPtr) = varAdded := by
    unfold state word word headerAt
    rw [hsta]
    decide
  have hliv' : isLive (headerAt bytes' pass.currPtr) = true := by
    simp only [isLive, hsta', true_or, decide_true]
  obtain ⟨hval', hv, hsize⟩ := variableAt_of_copied hcopy hlive hliv'
  have hnext : nextAt bytes' authFlag pass.currPtr = pass.currPtr + sizeAt s authFlag p :=
    nextAt_of_copied hp h.mod hsize
  refine ⟨h.base_eq, h.size_eq, h.aligned, ?_, ?_, ?_, ?_⟩
  · intro i hi
    rw [← h.header i hi]
    exact hbel _ (by omega)
  · rw [← hnext]
    refine (h.chain.congr fun a _ ha => hbel a ha).append (hval'.trans hval) ?_
    rw [hv, hsta']
    rfl
  · have hmod := h.mod
    have hsiz : sizeAt s authFlag p % 4 = 0 := sizeAt_mod hp
    change (pass.currPtr + sizeAt s authFlag p) % 4 = 0
    omega
  · intro a ha hlt
    have ha : pass.currPtr + sizeAt s authFlag p ≤ a := ha
    exact (habo a ha).trans (h.erased a (by omega) hlt)

lemma readBytes_getElem? {bytes : Bytes} {n i : ℕ} (h : i < n) :
    (readBytes bytes p n)[i]? = some (bytes (p + i)) := by
  have hget := @getElem?_bytesAt _ bytes p n i
  rw [if_pos h] at hget
  exact hget

lemma Built.keep (h : Built s g.authFormat base size pass vars) (hp : p % 4 = 0)
    (hval : isValidVariableHeader (headerAt s.bytes p) = true)
    (hsta : state (headerAt s.bytes p) = varAdded) :
    Built s g.authFormat base size (keep g services s r pass p)
      (vars ++ [asAdded (variableAt s.bytes g.authFormat p)]) := by
  have hlive : isLive (headerAt s.bytes p) = true := by
    simp only [isLive, hsta, true_or, decide_true]
  have hge := sizeAt_ge s g.authFormat p
  have h32 := headerSize_ge g.authFormat
  have hcopy : ∀ i < sizeAt s g.authFormat p, writeBytes pass.buffer.bytes pass.currPtr
      (readBytes s.bytes p (sizeAt s g.authFormat p)) (pass.currPtr + i) = s.bytes (p + i) := by
    intro i hi
    apply writeBytes_of_getElem? (Nat.le_add_right _ _)
    rw [Nat.add_sub_cancel_left]
    exact readBytes_getElem? hi
  apply h.extend hp hval hlive
  · exact fun a ha => writeBytes_of_lt ha
  · exact fun i hi _ => hcopy i hi
  · rw [hcopy 2 (by omega)]
    have hbyte : (s.bytes (p + 2)).toNat = varAdded := by
      rw [← hsta]
      simp [state, word, headerAt]
    rw [← hbyte, UInt8.ofNat_toNat]
  · exact fun a ha => writeBytes_of_ge (by rw [length_readBytes]; exact ha)

lemma Built.promote (h : Built s g.authFormat base size pass vars) (hp : p % 4 = 0)
    (hval : isValidVariableHeader (headerAt s.bytes p) = true)
    (hsta : state (headerAt s.bytes p) = varInDeletedAdded) :
    Built s g.authFormat base size (promote g services s r pass p)
      (vars ++ [asAdded (variableAt s.bytes g.authFormat p)]) := by
  have hlive : isLive (headerAt s.bytes p) = true := by
    simp only [isLive, hsta, or_true, decide_true]
  have hge := sizeAt_ge s g.authFormat p
  have h32 := headerSize_ge g.authFormat
  apply h.extend hp hval hlive
  · intro a ha
    rw [writeBytes_of_lt (by omega), writeBytes_of_lt ha]
  · intro i hi hne
    rw [writeBytes_singleton, if_neg (by omega)]
    apply writeBytes_of_getElem? (Nat.le_add_right _ _)
    rw [Nat.add_sub_cancel_left]
    exact readBytes_getElem? hi
  · rw [writeBytes_singleton, if_pos rfl]
  · grind [writeBytes_singleton, length_readBytes, writeBytes_of_ge]

/-! ### The search in the buffer -/

/-- The header and the name of the variable at `p` lie in the region. -/
def Region.HoldsName (s : Region) (authFlag : Bool) (p : ℕ) : Prop :=
  s.Holds p (getVariableHeaderSize authFlag + nameSizeOfVariable (headerAt s.bytes p) authFlag)

lemma sameKey_iff : sameKey (variableAt b.bytes authFlag q) (variableAt s.bytes authFlag p) = true ↔
    (vendorGuid (headerAt b.bytes q) authFlag = vendorGuid (headerAt s.bytes p) authFlag ∧
      nameSizeOfVariable (headerAt b.bytes q) authFlag =
        nameSizeOfVariable (headerAt s.bytes p) authFlag) ∧
      readBytes b.bytes (getVariableNamePtr q authFlag)
          (nameSizeOfVariable (headerAt b.bytes q) authFlag) =
        readBytes s.bytes (getVariableNamePtr p authFlag)
          (nameSizeOfVariable (headerAt b.bytes q) authFlag) := by
  have hkey : sameKey (variableAt b.bytes authFlag q) (variableAt s.bytes authFlag p) = true ↔
      vendorGuid (headerAt b.bytes q) authFlag = vendorGuid (headerAt s.bytes p) authFlag ∧
        readBytes b.bytes (getVariableNamePtr q authFlag)
            (nameSizeOfVariable (headerAt b.bytes q) authFlag) =
          readBytes s.bytes (getVariableNamePtr p authFlag)
            (nameSizeOfVariable (headerAt s.bytes p) authFlag) := by
    unfold sameKey
    rw [Bool.and_eq_true, decide_eq_true_eq, decide_eq_true_eq]
    exact Iff.rfl
  rw [hkey]
  constructor
  · grind [length_readBytes]
  · grind

lemma isSameVariable_spec (hb : b.HoldsName g.authFormat q) (hp : s.base ≤ p) :
    (∀ same, isSameVariable g s b q p = .ok same →
      same = sameKey (variableAt b.bytes g.authFormat q) (variableAt s.bytes g.authFormat p) ∧
        (same = true → s.HoldsName g.authFormat p)) ∧
      (s.HoldsName g.authFormat p → isSameVariable g s b q p =
        .ok (sameKey (variableAt b.bytes g.authFormat q) (variableAt s.bytes g.authFormat p))) := by
  obtain ⟨hguid, -⟩ := headerSize_bounds g.authFormat
  have hbgu : b.Holds (q + guidOffset g.authFormat) 16 := Region.Holds.mono hb (by omega) (by omega)
  have hbna : b.Holds (getVariableNamePtr q g.authFormat)
      (nameSizeOfVariable (headerAt b.bytes q) g.authFormat) :=
    Region.Holds.mono hb (Nat.le_add_right _ _) (le_of_eq (Nat.add_assoc _ _ _))
  unfold isSameVariable
  simp only [touch_of_holds hbgu, ok_bind]
  by_cases hsame : vendorGuid (headerAt b.bytes q) g.authFormat =
      vendorGuid (headerAt s.bytes p) g.authFormat ∧
      nameSizeOfVariable (headerAt b.bytes q) g.authFormat =
        nameSizeOfVariable (headerAt s.bytes p) g.authFormat
  · have hkey : sameKey (variableAt b.bytes g.authFormat q) (variableAt s.bytes g.authFormat p) =
        decide (readBytes b.bytes (getVariableNamePtr q g.authFormat)
            (nameSizeOfVariable (headerAt b.bytes q) g.authFormat) =
          readBytes s.bytes (getVariableNamePtr p g.authFormat)
            (nameSizeOfVariable (headerAt b.bytes q) g.authFormat)) := by
      rw [Bool.eq_iff_iff, sameKey_iff, decide_eq_true_eq]
      exact ⟨fun h => h.2, fun h => ⟨hsame, h⟩⟩
    simp only [if_pos hsame, touch_of_holds hbna, ok_bind]
    rw [hkey]
    constructor
    · intro same h
      obtain ⟨hg, h⟩ := touch_bind.mp h
      obtain ⟨hn, h⟩ := touch_bind.mp h
      cases h
      refine ⟨rfl, fun _ => ⟨hp, ?_⟩⟩
      rw [← hsame.2, ← Nat.add_assoc]
      exact hn.2
    · intro h
      refine touch_bind.mpr ⟨Region.Holds.mono h (by omega) (by omega), ?_⟩
      refine touch_bind.mpr ⟨Region.Holds.mono h (Nat.le_add_right _ _) ?_, rfl⟩
      rw [hsame.2]
      exact le_of_eq (Nat.add_assoc _ _ _)
  · have hkey : sameKey (variableAt b.bytes g.authFormat q) (variableAt s.bytes g.authFormat p) =
        false := by
      rw [Bool.eq_false_iff]
      exact fun h => hsame (sameKey_iff.mp h).1
    simp only [if_neg hsame]
    rw [hkey]
    constructor
    · intro same h
      obtain ⟨-, h⟩ := touch_bind.mp h
      cases h
      exact ⟨rfl, nofun⟩
    · intro h
      exact touch_bind.mpr ⟨Region.Holds.mono h (by omega) (by omega), rfl⟩

lemma findAdded_spec {stop ptr last : ℕ} (h : Trace b.bytes g.authFormat stop ptr l last)
    (hstop : b.endPtr = stop) (hptr : ptr ≠ 0) (hfuel : l.length < fuel)
    (hlast : last < stop → b.Holds last 2) (hp : s.base ≤ p)
    (hb : ∀ q ∈ l, b.HoldsName g.authFormat q) :
    (∀ found, findAdded g s b p fuel ptr = .ok found →
      found = l.any (fun q => sameKey (variableAt b.bytes g.authFormat q)
        (variableAt s.bytes g.authFormat p)) ∧ (found = true → s.HoldsName g.authFormat p)) ∧
      (s.HoldsName g.authFormat p → findAdded g s b p fuel ptr =
        .ok (l.any fun q => sameKey (variableAt b.bytes g.authFormat q)
          (variableAt s.bytes g.authFormat p))) := by
  subst hstop
  induction h generalizing fuel with
  | @done ptr hval =>
    cases fuel with
    | zero => cases hfuel
    | succ fuel =>
      have hdone : findAdded g s b p (fuel + 1) ptr = .ok false := by
        unfold findAdded
        rw [isValidVariableHeader_eq_ok.mpr ⟨fun _ => hlast, hval.symm⟩]
        rfl
      rw [hdone]
      constructor
      · intro found h
        cases h
        exact ⟨rfl, nofun⟩
      · exact fun _ => rfl
  | @next ptr last l hval hrest ih =>
    have hnext := lt_nextAt b.bytes g.authFormat ptr
    cases fuel with
    | zero => cases hfuel
    | succ fuel =>
      obtain ⟨hhere, hthe⟩ := List.forall_mem_cons.mp hb
      rw [List.length_cons] at hfuel
      have hread := headerRead_le g.authFormat (headerAt b.bytes ptr)
      have hhdr : b.HoldsHeader g.authFormat ptr :=
        Region.Holds.mono hhere le_rfl (by omega)
      obtain ⟨hok, hhol⟩ := @isSameVariable_spec g s b p ptr hhere hp
      obtain ⟨ihok, ihholds⟩ := @ih fuel (by omega) (by omega) hthe hlast
      have hstep : findAdded g s b p (fuel + 1) ptr = isSameVariable g s b ptr p >>= fun same =>
          if same then return true
          else findAdded g s b p fuel (nextAt b.bytes g.authFormat ptr) := by
        rw [findAdded]
        rw [isValidVariableHeader_eq_ok.mpr ⟨fun _ _ => hhdr.two, hval.symm⟩]
        simp only [(getNextVariablePtr_eq_ok hhdr.two).mpr ⟨hhdr, rfl⟩]
        rfl
      rw [hstep, List.any_cons]
      constructor
      · intro found h
        obtain ⟨same, hsame, h⟩ := bind_eq_ok.mp h
        obtain ⟨heq, hname⟩ := hok same hsame
        rw [← heq]
        cases same with
        | true =>
          cases h
          exact ⟨rfl, hname⟩
        | false => exact ihok found h
      · intro h
        refine bind_eq_ok.mpr ⟨_, hhol h, ?_⟩
        by_cases hkey : sameKey (variableAt b.bytes g.authFormat ptr)
            (variableAt s.bytes g.authFormat p) = true
        · rw [hkey]
          rfl
        · rw [Bool.not_eq_true] at hkey
          rw [hkey]
          exact ihholds h

lemma Built.trace (h : Built s authFlag base size pass vars) (hroom : pass.currPtr < base + size)
    (hstop : pass.currPtr ≤ pass.buffer.endPtr) :
    ∃ l, Trace pass.buffer.bytes authFlag pass.buffer.endPtr pass.buffer.startPtr l pass.currPtr ∧
      l.map (variableAt pass.buffer.bytes authFlag) = vars ∧
        ∀ q ∈ l, pass.buffer.HoldsName authFlag q := by
  have hsta : pass.buffer.startPtr = base + 28 := by
    have hali := h.aligned
    unfold Region.startPtr getStartPointer headerAlign variableStoreHeaderSize
    rw [h.base_eq]
    omega
  have hend : isValidAt pass.buffer.bytes pass.buffer.endPtr pass.currPtr = false := by
    have hbyte := h.erased _ le_rfl hroom
    rw [Bool.eq_false_iff]
    intro hval
    have hid : startId (headerAt pass.buffer.bytes pass.currPtr) = 0x55AA :=
      of_decide_eq_true (isValidAt_iff.mp hval).2.2
    have hfst : (headerAt pass.buffer.bytes pass.currPtr 0).toNat = 255 := congrArg _ hbyte
    unfold startId word at hid
    omega
  obtain ⟨l, hl, hmap⟩ := h.chain.trace (by omega) hstop hend
  rw [hsta]
  refine ⟨l, hl, hmap, ?_⟩
  intro q hq
  obtain ⟨hle, hlast, -⟩ := hl.bounds.2 q hq
  have hsize := sizeAt_ge pass.buffer authFlag q
  have hnext := lt_nextAt pass.buffer.bytes authFlag q
  unfold sizeAt at hsize
  unfold Region.HoldsName Region.Holds
  rw [h.base_eq, h.size_eq]
  omega

/-- What is certain to lie in the region of the variable at `p`: all of it, or the header. -/
def heldSize (s : Region) (authFlag : Bool) (p : ℕ) : ℕ :=
  if s.Holds p (sizeAt s authFlag p) then sizeAt s authFlag p else 16

lemma heldSize_of_holds (h : s.Holds p (sizeAt s authFlag p)) :
    heldSize s authFlag p = sizeAt s authFlag p := if_pos h

lemma heldSize_ge (s : Region) (authFlag : Bool) (p : ℕ) : 16 ≤ heldSize s authFlag p := by
  have hge := sizeAt_ge s authFlag p
  have h32 := headerSize_ge authFlag
  unfold heldSize
  split_ifs <;> omega

@[simp] lemma keep_currPtr : (keep g services s r pass p).currPtr =
    pass.currPtr + sizeAt s g.authFormat p := rfl

@[simp] lemma keep_base : (keep g services s r pass p).buffer.base = pass.buffer.base := rfl

@[simp] lemma keep_size : (keep g services s r pass p).buffer.size = pass.buffer.size := rfl

@[simp] lemma promote_currPtr : (promote g services s r pass p).currPtr =
    pass.currPtr + sizeAt s g.authFormat p := rfl

@[simp] lemma promote_base : (promote g services s r pass p).buffer.base = pass.buffer.base := rfl

@[simp] lemma promote_size : (promote g services s r pass p).buffer.size = pass.buffer.size := rfl

lemma foldlM_reinstallAdded (hcur : pass.buffer.base ≤ pass.currPtr)
    (hroom : pass.currPtr + ((l.filter (r.keepsAdded s)).map (heldSize s g.authFormat)).sum ≤
      pass.buffer.limit) :
    l.foldlM (fun pass p => reinstallAdded g services s r p (nextAt s.bytes g.authFormat p) pass)
        pass = .ok pass' ↔
      (∀ p ∈ l, r.keepsAdded s p = true → s.Holds p (sizeAt s g.authFormat p)) ∧
        pass' = (l.filter (r.keepsAdded s)).foldl (keep g services s r) pass := by
  induction l generalizing pass with
  | nil =>
    constructor
    · intro h
      cases h
      exact ⟨by simp, rfl⟩
    · rintro ⟨-, rfl⟩
      rfl
  | cons p l ih =>
    rw [List.foldlM_cons, bind_eq_ok]
    by_cases hkeep : r.keepsAdded s p = true
    · rw [List.filter_cons_of_pos hkeep, List.map_cons, List.sum_cons] at hroom
      rw [List.filter_cons_of_pos hkeep, List.foldl_cons]
      have hput : s.Holds p (sizeAt s g.authFormat p) →
          pass.buffer.Holds pass.currPtr (sizeAt s g.authFormat p) := by
        intro hhol
        rw [heldSize_of_holds hhol] at hroom
        exact ⟨hcur, by unfold Region.limit at hroom; omega⟩
      have hrest : s.Holds p (sizeAt s g.authFormat p) → _ := fun hhol =>
        @ih (keep g services s r pass p) (by rw [keep_base, keep_currPtr]; omega) (by
          rw [heldSize_of_holds hhol] at hroom
          rw [keep_currPtr]
          exact le_trans (le_of_eq (Nat.add_assoc _ _ _)) hroom)
      constructor
      · rintro ⟨pass₁, hstep, h⟩
        obtain ⟨hhol, rfl⟩ := (reinstallAdded_eq_ok hput).mp hstep
        rw [if_pos hkeep] at h
        obtain ⟨hall, rfl⟩ := (hrest (hhol hkeep)).mp h
        exact ⟨List.forall_mem_cons.mpr ⟨hhol, hall⟩, rfl⟩
      · rintro ⟨hall, rfl⟩
        obtain ⟨hhol, hall⟩ := List.forall_mem_cons.mp hall
        refine ⟨_, (reinstallAdded_eq_ok hput).mpr ⟨hhol, rfl⟩, ?_⟩
        rw [if_pos hkeep]
        exact (hrest (hhol hkeep)).mpr ⟨hall, rfl⟩
    · rw [List.filter_cons_of_neg hkeep] at hroom ⊢
      have hstep : reinstallAdded g services s r p (nextAt s.bytes g.authFormat p) pass = .ok pass := by
        unfold reinstallAdded
        apply if_neg
        rintro ⟨hup, hsta⟩
        exact hkeep (by simp [Request.keepsAdded, hup, hsta])
      constructor
      · grind
      · grind

/-! ### The second loop -/

/-- The variables that the second loop adds again when the buffer holds `vars`. -/
def promotedFrom (authFlag : Bool) (s : Region) (r : Request) : List StoredVariable → List ℕ → List ℕ
  | _, [] => []
  | vars, p :: l =>
    if r.keepsInDeleted s p && !vars.any (fun v => sameKey v (variableAt s.bytes authFlag p)) then
      p :: promotedFrom authFlag s r (vars ++ [asAdded (variableAt s.bytes authFlag p)]) l
    else promotedFrom authFlag s r vars l

lemma reinstallInDeleted_of_not (h : r.keepsInDeleted s p = false) :
    reinstallInDeleted g services s r p (nextAt s.bytes g.authFormat p) pass = .ok pass := by
  unfold reinstallInDeleted
  apply if_neg
  rintro ⟨hup, hold, hsta⟩
  rw [Request.keepsInDeleted, hup, hold, hsta] at h
  cases h

lemma reinstallInDeleted_eq_ok (h : Built s g.authFormat base size pass vars)
    (hkeep : r.keepsInDeleted s p = true) (hp : s.base ≤ p)
    (hroom : pass.currPtr + heldSize s g.authFormat p ≤ base + size)
    (hstop : pass.currPtr ≤ pass.buffer.endPtr) :
    reinstallInDeleted g services s r p (nextAt s.bytes g.authFormat p) pass = .ok pass' ↔
      if vars.any (fun v => sameKey v (variableAt s.bytes g.authFormat p)) then
        s.HoldsName g.authFormat p ∧ pass' = pass
      else s.Holds p (sizeAt s g.authFormat p) ∧ pass' = promote g services s r pass p := by
  have hge := heldSize_ge s g.authFormat p
  have hsize := sizeAt_ge s g.authFormat p
  have h32 := headerSize_ge g.authFormat
  have hlow := h.chain.le
  obtain ⟨l, htra, hmap, hnam⟩ := h.trace (by omega) hstop
  have hlast : pass.currPtr < pass.buffer.endPtr → pass.buffer.Holds pass.currPtr 2 := by
    intro _
    unfold Region.Holds
    rw [h.base_eq, h.size_eq]
    omega
  obtain ⟨hfnd, hhol⟩ := @findAdded_spec g s pass.buffer
    (pass.buffer.endPtr - pass.buffer.startPtr + 1) p l _ _ _ htra rfl
    pass.buffer.startPtr_ne_zero (Nat.lt_succ_of_le htra.length_le) hlast hp hnam
  have hany : (l.any fun q => sameKey (variableAt pass.buffer.bytes g.authFormat q)
      (variableAt s.bytes g.authFormat p)) =
        vars.any fun v => sameKey v (variableAt s.bytes g.authFormat p) := by
    rw [← hmap, List.any_map, Function.comp_def]
  rw [hany] at hfnd hhol
  have hcond : (!r.isUpdating p) = true ∧ (!r.isUpdatingInDeleted p) = true ∧
      state (headerAt s.bytes p) = varInDeletedAdded := by
    simpa [Request.keepsInDeleted, and_assoc] using hkeep
  unfold reinstallInDeleted
  rw [if_pos hcond]
  by_cases hsame : vars.any (fun v => sameKey v (variableAt s.bytes g.authFormat p)) = true
  · rw [hsame] at hfnd hhol
    rw [if_pos hsame]
    constructor
    · intro hrun
      obtain ⟨found, hf, hrun⟩ := bind_eq_ok.mp hrun
      obtain ⟨rfl, hname⟩ := hfnd found hf
      cases hrun
      exact ⟨hname rfl, rfl⟩
    · rintro ⟨hname, rfl⟩
      exact bind_eq_ok.mpr ⟨_, hhol hname, rfl⟩
  · rw [Bool.not_eq_true] at hsame
    rw [hsame] at hfnd hhol
    rw [if_neg (by rw [hsame]; decide)]
    constructor
    · intro hrun
      obtain ⟨found, hf, hrun⟩ := bind_eq_ok.mp hrun
      obtain ⟨rfl, -⟩ := hfnd found hf
      obtain ⟨pass₁, hcopy, hrun⟩ := bind_eq_ok.mp hrun
      obtain ⟨hcop, hcopy⟩ := touch_bind.mp hcopy
      obtain ⟨b₁, hb₁, hcopy⟩ := bind_eq_ok.mp hcopy
      obtain ⟨-, rfl⟩ := write_eq_ok.mp hb₁
      cases hcopy
      obtain ⟨pass₂, hset, hrun⟩ := bind_eq_ok.mp hrun
      obtain ⟨b₂, hb₂, hset⟩ := bind_eq_ok.mp hset
      obtain ⟨-, rfl⟩ := write_eq_ok.mp hb₂
      cases hset
      cases hrun
      exact ⟨hcop, rfl⟩
    · rintro ⟨hcop, rfl⟩
      rw [heldSize_of_holds hcop] at hroom
      have hname : s.HoldsName g.authFormat p := Region.Holds.mono hcop le_rfl (by omega)
      refine bind_eq_ok.mpr ⟨_, hhol hname, ?_⟩
      refine bind_eq_ok.mpr ⟨_, touch_bind.mpr ⟨hcop, bind_eq_ok.mpr ⟨_, write_of_holds ?_, rfl⟩⟩, ?_⟩
      · unfold Region.Holds
        rw [length_readBytes, h.base_eq, h.size_eq]
        exact ⟨by omega, hroom⟩
      · refine bind_eq_ok.mpr ⟨_, bind_eq_ok.mpr ⟨_, write_of_holds ?_, rfl⟩, rfl⟩
        unfold Region.Holds
        simp only [h.base_eq, h.size_eq, List.length_singleton]
        omega

lemma Built.endPtr (h : Built s authFlag base size pass vars) :
    pass.buffer.endPtr = headerAlign (base + word s.bytes (s.base + 16) 4) := by
  have hword : word pass.buffer.bytes (base + 16) 4 = word s.bytes (s.base + 16) 4 := by
    apply word_congr
    intro i hi
    rw [Nat.add_assoc, Nat.add_assoc]
    exact h.header (16 + i) (by omega)
  unfold Region.endPtr getEndPointer
  rw [h.base_eq, hword]

lemma foldlM_reinstallInDeleted (h : Built s g.authFormat base size pass vars)
    (hl : ∀ p ∈ l, isValidVariableHeader (headerAt s.bytes p) = true ∧ p % 4 = 0 ∧ s.base ≤ p)
    (hroom : pass.currPtr + ((l.filter (r.keepsInDeleted s)).map (heldSize s g.authFormat)).sum ≤
      base + size)
    (hstop : pass.currPtr + ((l.filter (r.keepsInDeleted s)).map (heldSize s g.authFormat)).sum ≤
      base + word s.bytes (s.base + 16) 4) :
    l.foldlM (fun pass p => reinstallInDeleted g services s r p (nextAt s.bytes g.authFormat p) pass)
        pass = .ok pass' ↔
      (∀ p ∈ l, r.keepsInDeleted s p = true → s.HoldsName g.authFormat p) ∧
        (∀ p ∈ promotedFrom g.authFormat s r vars l, s.Holds p (sizeAt s g.authFormat p)) ∧
          pass' = (promotedFrom g.authFormat s r vars l).foldl (promote g services s r) pass := by
  induction l generalizing pass vars with
  | nil =>
    constructor
    · intro h
      cases h
      exact ⟨by simp, by simp [promotedFrom], rfl⟩
    · rintro ⟨-, -, rfl⟩
      rfl
  | cons p l ih =>
    obtain ⟨⟨hval, hmod, hbase⟩, hl⟩ := List.forall_mem_cons.mp hl
    rw [List.foldlM_cons, bind_eq_ok, promotedFrom]
    by_cases hkeep : r.keepsInDeleted s p = true
    · rw [List.filter_cons_of_pos hkeep, List.map_cons, List.sum_cons] at hroom hstop
      have hstep := @reinstallInDeleted_eq_ok g services s r p base size pass
      have hend := h.endPtr
      have hali := headerAlign_ge (base + word s.bytes (s.base + 16) 4)
      have hstep := fun pass' => @hstep pass' vars h hkeep hbase (by omega) (by omega)
      by_cases hsame : vars.any (fun v => sameKey v (variableAt s.bytes g.authFormat p)) = true
      · grind
      · simp only [if_neg hsame] at hstep
        rw [Bool.not_eq_true] at hsame
        rw [if_pos (by rw [hkeep, hsame]; decide), List.foldl_cons]
        have hsta : state (headerAt s.bytes p) = varInDeletedAdded := by
          simpa using (Bool.and_eq_true_iff.mp hkeep).2
        have hrest : s.Holds p (sizeAt s g.authFormat p) → _ := fun hhol =>
          @ih (promote g services s r pass p)
            (vars ++ [asAdded (variableAt s.bytes g.authFormat p)])
            (h.promote hmod hval hsta) hl
            (by rw [heldSize_of_holds hhol] at hroom; rw [promote_currPtr]; omega)
            (by rw [heldSize_of_holds hhol] at hstop; rw [promote_currPtr]; omega)
        constructor
        · rintro ⟨pass₁, h₁, hrun⟩
          obtain ⟨hhol, rfl⟩ := (hstep pass₁).mp h₁
          obtain ⟨hnam, hpro, heq⟩ := (hrest hhol).mp hrun
          have hname : s.HoldsName g.authFormat p :=
            Region.Holds.mono hhol le_rfl (Nat.add_le_add_left (sizeAt_ge _ _ _) _)
          exact ⟨List.forall_mem_cons.mpr ⟨fun _ => hname, hnam⟩,
            List.forall_mem_cons.mpr ⟨hhol, hpro⟩, heq⟩
        · grind
    · rw [List.filter_cons_of_neg hkeep] at hroom hstop
      rw [Bool.not_eq_true] at hkeep
      rw [if_neg (by simp [hkeep])]
      have hrest := ih h hl hroom hstop
      constructor
      · grind [reinstallInDeleted_of_not]
      · rintro ⟨hnam, hpro, heq⟩
        exact ⟨pass, reinstallInDeleted_of_not hkeep,
          hrest.mpr ⟨(List.forall_mem_cons.mp hnam).2, hpro, heq⟩⟩

lemma Built.foldl {step : Pass → ℕ → Pass} (h : Built s g.authFormat base size pass vars)
    (hstep : ∀ pass vars, ∀ p ∈ l, Built s g.authFormat base size pass vars →
      Built s g.authFormat base size (step pass p)
        (vars ++ [asAdded (variableAt s.bytes g.authFormat p)])) :
    Built s g.authFormat base size (l.foldl step pass)
      (vars ++ l.map fun p => asAdded (variableAt s.bytes g.authFormat p)) := by
  induction l generalizing pass vars with
  | nil => simpa using h
  | cons p l ih =>
    have hrest := ih (hstep pass vars p List.mem_cons_self h) fun pass vars q hq =>
      hstep pass vars q (List.mem_cons_of_mem p hq)
    rwa [List.append_assoc] at hrest

end Edk2.VariableDxe
