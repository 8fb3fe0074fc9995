import Edk2.Variable.Pei

/-!
# Reading across the split

On a benign split store the header, the next pointer, the name and the data of each variable are read
as they are in the merged image.
-/

namespace Edk2.Variable

open Outcome

variable {mem : Bytes} {platform : Platform} {ftw : FtwLastWriteData} {n k a : ℕ} {hobs : Hobs}

/-- The bytes of a header are the same. -/
def SameHeader (authFlag : Bool) (h h' : Bytes) : Prop :=
  ∀ i < getVariableHeaderSize authFlag, h i = h' i

section SameHeader

variable {authFlag : Bool} {h h' : Bytes}

lemma headerSize_ge (authFlag : Bool) : 32 ≤ getVariableHeaderSize authFlag := by
  cases authFlag <;> decide

lemma SameHeader.word (hs : SameHeader authFlag h h') {o m : ℕ}
    (hle : o + m ≤ getVariableHeaderSize authFlag) : word h o m = word h' o m := by
  apply word_congr
  intro i hi
  exact hs (o + i) (by omega)

lemma SameHeader.startId (hs : SameHeader authFlag h h') : startId h = startId h' :=
  hs.word ((by decide : 0 + 2 ≤ 32).trans (headerSize_ge authFlag))

lemma SameHeader.state (hs : SameHeader authFlag h h') : state h = state h' :=
  hs.word ((by decide : 2 + 1 ≤ 32).trans (headerSize_ge authFlag))

lemma SameHeader.attributes (hs : SameHeader authFlag h h') : attributes h = attributes h' :=
  hs.word ((by decide : 4 + 4 ≤ 32).trans (headerSize_ge authFlag))

lemma SameHeader.vendorGuid (hs : SameHeader authFlag h h') :
    vendorGuid h authFlag = vendorGuid h' authFlag := by
  apply hs.word
  cases authFlag <;> decide

lemma SameHeader.isErased (hs : SameHeader authFlag h h') :
    isErased h authFlag = isErased h' authFlag := by
  have hname : nameSize h authFlag = nameSize h' authFlag := by
    apply hs.word
    cases authFlag <;> decide
  have hdata : dataSize h authFlag = dataSize h' authFlag := by
    apply hs.word
    cases authFlag <;> decide
  simp only [Variable.isErased, hs.state, hs.attributes, hname, hdata]

lemma SameHeader.nameSize (hs : SameHeader authFlag h h') :
    nameSizeOfVariable h authFlag = nameSizeOfVariable h' authFlag := by
  have hname : Variable.nameSize h authFlag = Variable.nameSize h' authFlag := by
    apply hs.word
    cases authFlag <;> decide
  simp only [nameSizeOfVariable, hs.isErased, hname]

lemma SameHeader.dataSize (hs : SameHeader authFlag h h') :
    dataSizeOfVariable h authFlag = dataSizeOfVariable h' authFlag := by
  have hdata : Variable.dataSize h authFlag = Variable.dataSize h' authFlag := by
    apply hs.word
    cases authFlag <;> decide
  simp only [dataSizeOfVariable, hs.isErased, hdata]

lemma SameHeader.isValid (hs : SameHeader authFlag h h') :
    isValidVariableHeader h = isValidVariableHeader h' := by
  simp only [isValidVariableHeader, hs.startId]

lemma SameHeader.isLive (hs : SameHeader authFlag h h') : isLive h = isLive h' := by
  simp only [Variable.isLive, hs.state]

end SameHeader

lemma headerAlign_ge (value : ℕ) : value ≤ headerAlign value := by
  unfold headerAlign
  omega

lemma nextAt_ge (image : Bytes) (authFlag : Bool) (a : ℕ) :
    a + getVariableHeaderSize authFlag ≤ nextAt image authFlag a := by
  refine le_trans ?_ (headerAlign_ge _)
  simp only [getVariableDataPtr, getVariableNamePtr]
  omega

lemma position_succ (k : ℕ) : position mem platform ftw (k + 1) =
    nextAt (mergedImage mem ftw) (splitInfo mem platform ftw).authFlag
      (position mem platform ftw k) :=
  Function.iterate_succ_apply' _ _ _

lemma position_step (k : ℕ) : position mem platform ftw k +
    getVariableHeaderSize (splitInfo mem platform ftw).authFlag ≤ position mem platform ftw (k + 1) := by
  rw [position_succ]
  exact nextAt_ge _ _ _

lemma position_mono : Monotone (position mem platform ftw) :=
  monotone_nat_of_le_succ fun k => (Nat.le_add_right _ _).trans (position_step k)

lemma position_lt {i j : ℕ} (hij : i < j) : position mem platform ftw i +
    getVariableHeaderSize (splitInfo mem platform ftw).authFlag ≤ position mem platform ftw j :=
  (position_step i).trans (position_mono hij)

lemma start_le_position (k : ℕ) :
    getStartPointer (platform.storeHeader mem) ≤ position mem platform ftw k :=
  position_mono (Nat.zero_le k)

/-- A header lies across the split. -/
def Across (mem : Bytes) (platform : Platform) (ftw : FtwLastWriteData) (k : ℕ) : Prop :=
  position mem platform ftw k < ftw.targetAddress ∧ ftw.targetAddress <
    position mem platform ftw k + getVariableHeaderSize (splitInfo mem platform ftw).authFlag

lemma not_across_of_lt {i j : ℕ} (hij : i < j) (hi : Across mem platform ftw i) :
    ¬ Across mem platform ftw j := by
  intro hj
  have hstep : position mem platform ftw i + getVariableHeaderSize
    (splitInfo mem platform ftw).authFlag ≤ position mem platform ftw j := position_lt hij
  exact absurd (hstep.trans_lt hj.1) (not_lt.mpr hi.2.le)

lemma Across.unique {i j : ℕ} (hi : Across mem platform ftw i) (hj : Across mem platform ftw j) :
    i = j := by
  rcases Nat.lt_trichotomy i j with hlt | heq | hlt
  · exact absurd hj (not_across_of_lt hlt hi)
  · exact heq
  · exact absurd hi (not_across_of_lt hlt hj)

lemma place_below (h : a < ftw.targetAddress) : ftw.place a = a := if_pos h

lemma place_above (h : ftw.targetAddress ≤ a) :
    ftw.place a = ftw.spareAddress + (a - ftw.targetAddress) := if_neg (not_lt.mpr h)

lemma place_add {i : ℕ} (h : ftw.targetAddress ≤ a ∨ a + i < ftw.targetAddress) :
    ftw.place (a + i) = ftw.place a + i := by
  rcases h with h | h
  · rw [place_above h, place_above (h.trans (Nat.le_add_right a i))]
    omega
  · rw [place_below h, place_below ((Nat.le_add_right a i).trans_lt h)]

lemma readBytes_place {m : ℕ} (h : ftw.targetAddress ≤ a ∨ a + m ≤ ftw.targetAddress) :
    readBytes mem (ftw.place a) m = readBytes (mergedImage mem ftw) a m := by
  apply readBytes_congr
  intro i hi
  rw [mergedImage, place_add (h.imp_right (by omega))]

lemma readBytes_across {m : ℕ} (h : a < ftw.targetAddress) (h' : ftw.targetAddress < a + m) :
    readBytes mem a (ftw.targetAddress - a) ++
      readBytes mem ftw.spareAddress (m - (ftw.targetAddress - a)) =
        readBytes (mergedImage mem ftw) a m := by
  have hm : m = (ftw.targetAddress - a) + (m - (ftw.targetAddress - a)) := by omega
  have hspl : a + (ftw.targetAddress - a) = ftw.targetAddress := by omega
  conv_rhs => rw [hm, readBytes_add, hspl]
  rw [← readBytes_place (.inr hspl.le), ← readBytes_place (.inl le_rfl), place_below h,
    place_above le_rfl, Nat.sub_self, Nat.add_zero]

lemma getVariableNameOrData_eq {m : ℕ} (habo : ftw.targetAddress ≤ ftw.spareAddress) :
    getVariableNameOrData mem (splitInfo mem platform ftw) (ftw.place a) m =
      readBytes (mergedImage mem ftw) a m := by
  simp only [getVariableNameOrData, splitInfo]
  rcases Nat.lt_or_ge a ftw.targetAddress with h | h
  · grind [place_below, readBytes_place, readBytes_across]
  · rw [if_neg, readBytes_place (.inl h)]
    rw [place_above h]
    omega

/-! ### Reading headers -/

/-- The combined header is that of the variable across the split. -/
def HobOk (mem : Bytes) (platform : Platform) (ftw : FtwLastWriteData) (n : ℕ) (hobs : Hobs) :
    Prop :=
  ∀ header, hobs.combinedHeader = some header → ∀ k ≤ n, Across mem platform ftw k →
    SameHeader (splitInfo mem platform ftw).authFlag header (headerNumber mem platform ftw k)

lemma sameHeader_combine (h : Across mem platform ftw k) :
    SameHeader (splitInfo mem platform ftw).authFlag
      (combineHeader mem ftw (position mem platform ftw k)) (headerNumber mem platform ftw k) := by
  intro i _
  have hlt := h.1
  simp only [combineHeader, headerNumber, headerAt, mergedImage]
  split_ifs with hi
  · rw [place_below (by omega)]
  · rw [place_above (by omega)]
    congr 1
    omega

lemma combinedHeaderHob_spec (hk : k ≤ n) (h : Across mem platform ftw k)
    (hhob : HobOk mem platform ftw n hobs) :
    Ends (combinedHeaderHob mem ftw (position mem platform ftw k) hobs)
      (fun header hobs' =>
        SameHeader (splitInfo mem platform ftw).authFlag header (headerNumber mem platform ftw k) ∧
          hobs'.indexTable = hobs.indexTable ∧ HobOk mem platform ftw n hobs')
      (fun _ _ => False) := by
  refine ends_bind (ends_get ?_)
  cases hsome : hobs.combinedHeader with
  | some header => exact ends_pure ⟨hhob header hsome k hk h, rfl, hhob⟩
  | none =>
    refine ends_bind (ends_set (ends_pure ⟨sameHeader_combine h, rfl, ?_⟩))
    intro header hhdr j hj hacr
    cases hhdr
    rw [h.unique hacr] at *
    exact sameHeader_combine hacr

/-- What a read of the header with number `k` returns. -/
structure ReadHeader (mem : Bytes) (platform : Platform) (ftw : FtwLastWriteData) (n k : ℕ)
    (hobs : Hobs) (r : Bool × Bytes) (hobs' : Hobs) : Prop where
  valid : r.1 = decide (k < n)
  header : SameHeader (splitInfo mem platform ftw).authFlag r.2 (headerNumber mem platform ftw k)
  indexTable : hobs'.indexTable = hobs.indexTable
  hob : HobOk mem platform ftw n hobs'

section Benign

variable (h : SplitStore mem platform ftw n) (hb : Benign mem platform ftw)

include h

lemma SplitStore.position_lt_end (hk : k < n) :
    position mem platform ftw k < getEndPointer mem (platform.storeHeader mem) := by
  have hstep : position mem platform ftw k + getVariableHeaderSize
    (splitInfo mem platform ftw).authFlag ≤ position mem platform ftw n := position_lt hk
  have hsize := headerSize_ge (splitInfo mem platform ftw).authFlag
  have hlast := h.last.1
  omega

include hb

lemma SplitStore.target_le_spare : ftw.targetAddress ≤ ftw.spareAddress :=
  h.target.le.trans hb.above

lemma SplitStore.isValid_iff (hk : k ≤ n) (hend : getEndPointer mem (platform.storeHeader mem) ≤
    position mem platform ftw k → position mem platform ftw k ≤ ftw.targetAddress) :
    isValidVariableHeader (headerNumber mem platform ftw k) = decide (k < n) := by
  rcases Nat.lt_or_ge k n with hlt | hge
  · rw [(h.valid k hlt).1, decide_eq_true hlt]
  · obtain rfl : k = n := le_antisymm hk hge
    rw [decide_eq_false (lt_irrefl k)]
    rcases h.last.2 with heq | hinv
    · rcases hb.ended with hlt | hinv
      · exact absurd hlt (not_lt.mpr (heq ▸ hend heq.ge))
      · rw [headerNumber, heq]
        exact hinv
    · exact hinv

lemma place_ne_zero (k : ℕ) : ftw.place (position mem platform ftw k) ≠ 0 := by
  have hsta : getStartPointer (platform.storeHeader mem) ≤ position mem platform ftw k :=
    start_le_position k
  have hpos : platform.storeHeader mem + 28 ≤ getStartPointer (platform.storeHeader mem) :=
    headerAlign_ge _
  have hspa := h.target_le_spare hb
  have htar := h.start
  unfold FtwLastWriteData.place
  split_ifs <;> omega

lemma getVariableHeader_spec (hk : k ≤ n) (hhob : HobOk mem platform ftw n hobs) :
    Ends (getVariableHeader mem (splitInfo mem platform ftw)
        (ftw.place (position mem platform ftw k)) hobs)
      (ReadHeader mem platform ftw n k hobs) (fun _ _ => False) := by
  have hne := place_ne_zero h hb k
  have hspa := h.target_le_spare hb
  have hstr : ftw.targetAddress < ftw.spareAddress := h.target.trans_le hb.above
  have hcon (hside : ftw.targetAddress ≤ position mem platform ftw k ∨
      position mem platform ftw k + getVariableHeaderSize (splitInfo mem platform ftw).authFlag ≤
        ftw.targetAddress) : SameHeader (splitInfo mem platform ftw).authFlag
          (fun i => mem (ftw.place (position mem platform ftw k) + i))
          (headerNumber mem platform ftw k) := by
    intro i hi
    simp only [headerNumber, headerAt, mergedImage]
    rw [place_add (hside.imp_right (by omega))]
  rw [getVariableHeader, if_neg hne]
  rcases Nat.lt_or_ge (position mem platform ftw k) ftw.targetAddress with hlt | hge
  · -- in the storage, where the end is not looked at
    have hval := h.isValid_iff hb hk fun _ => hlt.le
    rw [place_below hlt] at *
    refine ends_ite (fun hout => absurd hout.1 (by omega)) fun _ => ?_
    refine ends_ite (fun hacr => ?_) fun hside => ?_
    · refine ends_bind ((combinedHeaderHob_spec hk hacr hhob).imp ?_)
      rintro header hobs' ⟨hsame, htab, hhob'⟩
      exact ends_pure ⟨hsame.isValid.trans hval, hsame, htab, hhob'⟩
    · have hsame := hcon (.inr (not_lt.mp fun hgt => hside ⟨hlt, hgt⟩))
      exact ends_pure ⟨hsame.isValid.trans hval, hsame, rfl, hhob⟩
  · have hsame := hcon (.inl hge)
    have hpla := place_above hge
    refine ends_ite (fun hout => ends_pure ⟨?_, hsame, rfl, hhob⟩) fun hin => ?_
    · have hend : ¬ k < n := by
        intro hlt
        have := h.position_lt_end hlt
        have hlow : getEndPointer mem (platform.storeHeader mem) ≤ _ := hout.2
        omega
      exact (decide_eq_false hend).symm
    · refine ends_ite (fun hacr => absurd hacr.1 (by omega)) fun _ => ?_
      have hval : isValidVariableHeader (headerNumber mem platform ftw k) = decide (k < n) := by
        apply h.isValid_iff hb hk
        intro hend
        by_contra hgt
        refine hin ⟨by omega, ?_⟩
        change getEndPointer mem (platform.storeHeader mem) ≤ _
        omega
      exact ends_pure ⟨hsame.isValid.trans hval, hsame, rfl, hhob⟩

lemma getNextVariablePtr_spec {header : Bytes}
    (hsame : SameHeader (splitInfo mem platform ftw).authFlag header
      (headerNumber mem platform ftw k)) :
    getNextVariablePtr (splitInfo mem platform ftw) (ftw.place (position mem platform ftw k)) header =
      ftw.place (position mem platform ftw (k + 1)) := by
  have hspa := h.target_le_spare hb
  have hali := hb.aligned
  have hstep : position mem platform ftw k ≤ position mem platform ftw (k + 1) :=
    position_mono (Nat.le_succ k)
  have hnext : position mem platform ftw (k + 1) = variableEnd (position mem platform ftw k)
    (headerNumber mem platform ftw k) (splitInfo mem platform ftw).authFlag := position_succ k
  simp only [variableEnd, getVariableDataPtr, getVariableNamePtr, headerAlign] at hnext
  have hval : getNextVariablePtr (splitInfo mem platform ftw)
      (ftw.place (position mem platform ftw k)) header =
        if ftw.place (position mem platform ftw k) < ftw.targetAddress ∧
            variableEnd (ftw.place (position mem platform ftw k)) header
              (splitInfo mem platform ftw).authFlag ≥ ftw.targetAddress then
          ftw.spareAddress + (variableEnd (ftw.place (position mem platform ftw k)) header
            (splitInfo mem platform ftw).authFlag - ftw.targetAddress)
        else variableEnd (ftw.place (position mem platform ftw k)) header
          (splitInfo mem platform ftw).authFlag := rfl
  rw [hval]
  simp only [variableEnd, getVariableDataPtr, getVariableNamePtr, headerAlign, hsame.nameSize,
    hsame.dataSize]
  rcases Nat.lt_or_ge (position mem platform ftw k) ftw.targetAddress with hlt | hge
  · grind [place_below, place_above]
  · rw [place_above hge, place_above (hge.trans hstep), if_neg (by omega)]
    omega

lemma compareVariableName_spec {request : GetRequest} {name stored : List UInt8}
    (hpass : Passes mem platform request name) (hsto : IsName stored)
    (hread : readBytes (mergedImage mem ftw) a stored.length = stored)
    (hclo : ftw.targetAddress ≤ a ∨ a + stored.length ≤ ftw.targetAddress ∨
      request.variableName + stored.length ≤ ftw.targetAddress ∨
        ftw.targetAddress ≤ request.variableName) :
    compareVariableName mem (splitInfo mem platform ftw) request.variableName (ftw.place a)
      stored.length = decide (name = stored) := by
  have hspa := h.target_le_spare hb
  have htar := h.target
  have hbase : platform.nvStorageBase ≤ ftw.targetAddress := by
    refine le_trans ?_ h.start
    refine le_trans ?_ (headerAlign_ge _)
    unfold Platform.storeHeader
    omega
  have hcom := hpass.isName.readBytes_iff hsto hpass.bytes
  simp only [compareVariableName, splitInfo, compareMem]
  split_ifs with hnear hacr
  · -- the stored name is longer than the requested one
    have hlong : name.length ≤ ftw.targetAddress - request.variableName := by
      have := hpass.apart
      omega
    have hne : name ≠ stored := by
      intro heq
      have := congrArg List.length heq
      omega
    rw [decide_eq_false hne, Bool.and_eq_false_iff, decide_eq_false_iff_not]
    refine .inl fun heq => hne (hpass.isName.eq_of_prefix hsto ?_)
    have hname : name <+: readBytes mem request.variableName
        (ftw.targetAddress - request.variableName) := by
      conv_lhs => rw [← hpass.bytes]
      exact readBytes_take hlong
    have hpla : readBytes mem (ftw.place a) stored.length = stored :=
      (readBytes_place (by omega)).trans hread
    rw [heq] at hname
    rw [← hpla]
    exact hname.trans (readBytes_take (by omega))
  · have ha : a < ftw.targetAddress := by
      by_contra hge
      rw [place_above (not_lt.mp hge)] at hacr
      omega
    rw [place_below ha] at hacr ⊢
    have hpar : _ = stored := (readBytes_across ha hacr.2).trans hread
    have hsum := readBytes_add mem request.variableName (ftw.targetAddress - a)
      (stored.length - (ftw.targetAddress - a))
    rw [Nat.add_sub_of_le (by omega)] at hsum
    rw [Bool.eq_iff_iff, Bool.and_eq_true, decide_eq_true_iff, decide_eq_true_iff,
      decide_eq_true_iff, ← hcom, hsum]
    constructor
    · rintro ⟨h₁, h₂⟩
      rw [← h₁, ← h₂]
      exact hpar
    · intro heq
      obtain ⟨h₁, h₂⟩ := List.append_inj (heq.trans hpar.symm) (by simp)
      exact ⟨h₁.symm, h₂.symm⟩
  · rw [Bool.eq_iff_iff, decide_eq_true_iff, decide_eq_true_iff, ← hcom]
    have hpla : readBytes mem (ftw.place a) stored.length = stored := by
      grind [place_below, readBytes_place]
    rw [hpla]

omit hb in
lemma nameSize_ne_zero (hk : k < n) (hlive : isLive (headerNumber mem platform ftw k) = true) :
    nameSizeOfVariable (headerNumber mem platform ftw k) (splitInfo mem platform ftw).authFlag ≠
      0 := by
  obtain ⟨chars, -, hname⟩ := h.names k hk hlive
  have hlen := congrArg List.length hname
  have hsize : (variableNumber mem platform ftw k).name.length = nameSizeOfVariable
    (headerNumber mem platform ftw k) (splitInfo mem platform ftw).authFlag := length_readBytes _ _ _
  rw [hsize] at hlen
  intro hzero
  rw [hzero] at hlen
  cases chars with
  | nil => cases hlen
  | cons c rest => cases hlen

lemma compareWithValidVariable_spec {request : GetRequest} {name : List UInt8} {guid : ℕ}
    {header : Bytes} (hpass : Passes mem platform request name) (hnon : name ≠ encode [])
    (hguid : request.variableGuid = some guid)
    (hreada : request.Readable mem platform ftw n name) (hk : k < n)
    (hlive : isLive (headerNumber mem platform ftw k) = true)
    (hsame : SameHeader (splitInfo mem platform ftw).authFlag header
      (headerNumber mem platform ftw k)) :
    Ends (compareWithValidVariable mem (splitInfo mem platform ftw)
        (ftw.place (position mem platform ftw k)) header request.variableName guid hobs)
      (fun r hobs' => r = decide ((variableNumber mem platform ftw k).guid = guid ∧
        (variableNumber mem platform ftw k).name = name) ∧ hobs' = hobs) (fun _ _ => False) := by
  have hfst : word mem request.variableName 2 ≠ 0 := fun hzero =>
    hnon ((hpass.isName.word_eq_zero_iff hpass.bytes).mp hzero)
  refine ends_ite (fun hzero => absurd hzero hfst) fun _ => ?_
  have hsize := nameSize_ne_zero h hk hlive
  rw [hsame.vendorGuid, hsame.nameSize]
  refine ends_ite (fun heq => ?_) fun hne => ends_pure ⟨?_, rfl⟩
  · have hlen : (variableNumber mem platform ftw k).name.length = nameSizeOfVariable
        (headerNumber mem platform ftw k) (splitInfo mem platform ftw).authFlag :=
      length_readBytes _ _ _
    have hname := h.names k hk hlive
    have hread : readBytes (mergedImage mem ftw) (getVariableNamePtr (position mem platform ftw k)
        (splitInfo mem platform ftw).authFlag) (variableNumber mem platform ftw k).name.length =
          (variableNumber mem platform ftw k).name := by
      rw [hlen]
      rfl
    have hrea := hreada k hk hlive
    rw [hguid, heq] at hrea
    refine ends_bind (ends_ite (fun _ => ends_pure (ends_pure ⟨?_, rfl⟩)) fun hzero => ?_)
    · have hpla : getVariableNamePtr (ftw.place (position mem platform ftw k))
          (splitInfo mem platform ftw).authFlag = ftw.place (getVariableNamePtr
            (position mem platform ftw k) (splitInfo mem platform ftw).authFlag) := by
        refine (place_add ?_).symm
        rcases Nat.lt_or_ge (position mem platform ftw k) ftw.targetAddress with hlt | hge
        · exact .inr (hrea hlt rfl).1
        · exact .inl hge
      rw [hpla, ← hlen, compareVariableName_spec h hb hpass hname hread]
      · have hgui : (variableNumber mem platform ftw k).guid = guid := heq.symm
        simp only [hgui, true_and, eq_comm]
      · rcases Nat.lt_or_ge (position mem platform ftw k) ftw.targetAddress with hlt | hge
        · have hclo := (hrea hlt rfl).2.1
          rw [← hlen] at hclo
          refine .inr (hclo.imp_left fun hle => ?_)
          rw [hlen]
          exact hle
        · exact .inl (hge.trans (Nat.le_add_right _ _))
    · exact absurd (decide_eq_true hsize) hzero
  · exact (decide_eq_false fun hboth => hne hboth.1.symm).symm

end Benign

end Edk2.Variable
