import Edk2.Variable.Convert

/-!
# Reading a converted store

A walk through the new store stops at its end or at a wrong start identifier. It visits the added
variables of the normal store exactly if none of them lies behind the end and it does not go on to
another one, which the loops of the conversion reached but a walk through the normal store does not
visit.
-/

namespace Edk2.VariableDxe

open Variable Bytes Halting

variable {g : Global} {s s' b : Region} {bytes : Bytes} {stop last p q n e base : ℕ}
  {l l' rest : List ℕ} {allocate : ℕ → Option Region}

lemma IsCopy.word_eq (h : IsCopy s bytes p q) {c : Copied}
    (hc : c ∈ copiedParts (headerAt s.bytes p)) :
    word (headerAt bytes q) c.auth c.size = word (headerAt s.bytes p) c.normal c.size := by
  apply word_congr
  intro i hi
  unfold headerAt
  rw [← Nat.add_assoc, ← Nat.add_assoc]
  exact h c hc i hi

lemma name_mem_copiedParts (header : Bytes) : ⟨getVariableNamePtr 0 true,
    getVariableNamePtr 0 false, nameSize header false⟩ ∈ copiedParts header := by
  simp only [copiedParts, List.mem_cons, true_or, or_true]

lemma data_mem_copiedParts (header : Bytes) : ⟨getVariableNamePtr 0 true + nameSize header false,
    getVariableDataPtr 0 header false, dataSize header false⟩ ∈ copiedParts header := by
  simp only [copiedParts, List.mem_cons, true_or, or_true]

lemma IsCopy.variableAt_eq (h : IsCopy s bytes p q) :
    isValidVariableHeader (headerAt bytes q) = isValidVariableHeader (headerAt s.bytes p) ∧
      variableAt bytes true q = variableAt s.bytes false p ∧
      (isErased (headerAt s.bytes p) false = false → nextAt bytes true q =
        headerAlign (q + 60 + nameSize (headerAt s.bytes p) false +
          dataSize (headerAt s.bytes p) false)) := by
  have hid : startId (headerAt bytes q) = startId (headerAt s.bytes p) :=
    h.word_eq (c := ⟨0, 0, 2⟩) (by simp [copiedParts])
  have hsta : state (headerAt bytes q) = state (headerAt s.bytes p) :=
    h.word_eq (c := ⟨2, 2, 1⟩) (by simp [copiedParts])
  have hatt : attributes (headerAt bytes q) = attributes (headerAt s.bytes p) :=
    h.word_eq (c := ⟨4, 4, 4⟩) (by simp [copiedParts])
  have hname : nameSize (headerAt bytes q) true = nameSize (headerAt s.bytes p) false :=
    h.word_eq (c := ⟨36, 8, 4⟩) (by simp [copiedParts])
  have hdata : dataSize (headerAt bytes q) true = dataSize (headerAt s.bytes p) false :=
    h.word_eq (c := ⟨40, 12, 4⟩) (by simp [copiedParts])
  have hguid : vendorGuid (headerAt bytes q) true = vendorGuid (headerAt s.bytes p) false :=
    h.word_eq (c := ⟨44, 16, 16⟩) (by simp [copiedParts])
  have hera : isErased (headerAt bytes q) true = isErased (headerAt s.bytes p) false := by
    simp only [isErased, hsta, hatt, hname, hdata]
  have hnam : nameSizeOfVariable (headerAt bytes q) true =
      nameSizeOfVariable (headerAt s.bytes p) false := by
    simp only [nameSizeOfVariable, hera, hname]
  have hdat : dataSizeOfVariable (headerAt bytes q) true =
      dataSizeOfVariable (headerAt s.bytes p) false := by
    simp only [dataSizeOfVariable, hera, hdata]
  refine ⟨by simp only [isValidVariableHeader, hid], ?_, ?_⟩
  · simp only [variableAt, hsta, hatt, hguid, hnam, hdat, StoredVariable.mk.injEq, true_and]
    cases he : isErased (headerAt s.bytes p) false with
    | true => simp [nameSizeOfVariable, dataSizeOfVariable, he, readBytes]
    | false =>
      have hnameO : nameSizeOfVariable (headerAt s.bytes p) false =
          nameSize (headerAt s.bytes p) false := by simp [nameSizeOfVariable, he]
      have hdataO : dataSizeOfVariable (headerAt s.bytes p) false =
          dataSize (headerAt s.bytes p) false := by simp [dataSizeOfVariable, he]
      constructor
      · apply readBytes_congr
        intro i hi
        rw [hnameO] at hi
        have hbyte := h _ (name_mem_copiedParts _) i hi
        simp only [getVariableNamePtr, Nat.zero_add] at hbyte ⊢
        exact hbyte
      · apply readBytes_congr
        intro i hi
        rw [hdataO] at hi
        have hbyte := h _ (data_mem_copiedParts _) i hi
        simp only [getVariableDataPtr, getVariableNamePtr, Nat.zero_add, hnam, hnameO,
          Nat.add_assoc] at hbyte ⊢
        exact hbyte
  · intro he
    unfold nextAt variableEnd getVariableDataPtr getVariableNamePtr
    rw [hnam, hdat]
    simp only [nameSizeOfVariable, dataSizeOfVariable, he]
    rfl

/-! ### The walk through the new store -/

/-- The variables of a list that a walk visits in the new store, which ends at the offset `stop`. -/
def readable (s : Region) (stop : ℕ) : ℕ → List ℕ → List ℕ
  | _, [] => []
  | n, p :: l =>
    if headerAlign n < stop ∧ isValidVariableHeader (headerAt s.bytes p) = true then
      p :: readable s stop (authSizeAfter s n p) l
    else []

lemma readable_eq_iff (hval : ∀ p ∈ l, isValidVariableHeader (headerAt s.bytes p) = true) :
    readable s stop n (l ++ rest) = l ↔
      (∀ i < l.length, headerAlign ((l.take i).foldl (authSizeAfter s) n) < stop) ∧
        ∀ p, rest.head? = some p → isValidVariableHeader (headerAt s.bytes p) = false ∨
          stop ≤ headerAlign (l.foldl (authSizeAfter s) n) := by
  induction l generalizing n with
  | nil =>
    cases rest with
    | nil => simp [readable]
    | cons p rest =>
      rw [List.nil_append, readable]
      split_ifs with h
      · simp [h.2, h.1]
      · simp only [not_and_or, not_lt, Bool.not_eq_true] at h
        simp [h.symm]
  | cons q l ih =>
    have hq := hval q List.mem_cons_self
    have hrest := @ih (authSizeAfter s n q) fun p hp => hval p (List.mem_cons_of_mem _ hp)
    rw [List.cons_append, readable]
    have hspl : (∀ i < (q :: l).length,
        headerAlign (((q :: l).take i).foldl (authSizeAfter s) n) < stop) ↔
          headerAlign n < stop ∧ ∀ i < l.length,
            headerAlign ((l.take i).foldl (authSizeAfter s) (authSizeAfter s n q)) < stop := by
      constructor
      · exact fun h => ⟨h 0 (Nat.succ_pos _), fun i hi => h (i + 1) (Nat.succ_lt_succ hi)⟩
      · rintro ⟨hfst, hlat⟩ i hi
        cases i with
        | zero => exact hfst
        | succ i => exact hlat i (Nat.lt_of_succ_lt_succ hi)
    rw [hspl]
    split_ifs with h
    · rw [List.cons.injEq, hrest, List.foldl_cons]
      simp only [h.1, true_and]
    · have hge : ¬ headerAlign n < stop := fun hlt => h ⟨hlt, hq⟩
      simp [hge]

lemma nextAt_of_laid (h : IsCopy s bytes p (base + headerAlign n)) (hbase : base % 4 = 0)
    (hp : isErased (headerAt s.bytes p) false = false) :
    nextAt bytes true (base + headerAlign n) = base + headerAlign (authSizeAfter s n p) := by
  rw [h.variableAt_eq.2.2 hp, ← @headerAlign_add (authSizeAfter s n p) base hbase]
  unfold authSizeAfter
  simp only [getVariableHeaderSize, if_true, Nat.add_assoc]

lemma walk_of_readable (h : Laid s bytes base n (l ++ rest) e) (hbase : base % 4 = 0) (hn : 0 < n)
    (hstop : stop ≤ headerAlign e)
    (hl : ∀ p ∈ l, isErased (headerAt s.bytes p) false = false)
    (hread : readable s stop n (l ++ rest) = l) :
    ∃ l' last, Trace bytes true (base + stop) (base + headerAlign n) l' last ∧
      l'.map (variableAt bytes true) = l.map (variableAt s.bytes false) ∧
      (last < base + stop → base ≤ last ∧ last + 60 ≤ base + e) ∧
      ∀ q ∈ l', base ≤ q ∧
        q + 60 + nameSizeOfVariable (headerAt bytes q) true ≤ base + e := by
  induction l generalizing n with
  | nil =>
    refine ⟨[], base + headerAlign n, .done ?_, rfl, ?_, by simp⟩
    · rw [Bool.eq_false_iff]
      intro hv
      obtain ⟨-, hlt, hval⟩ := isValidAt_iff.mp hv
      cases rest with
      | nil =>
        have h : n = e := h
        rw [h] at hlt
        omega
      | cons p rest =>
        rw [List.nil_append, readable, if_pos ⟨by omega, by rwa [← h.1.variableAt_eq.1]⟩] at hread
        cases hread
    · intro hlt
      cases rest with
      | nil =>
        have h : n = e := h
        rw [h] at hlt
        omega
      | cons p rest =>
        have hle := h.2.le
        have hone := le_authSizeAfter s n p
        omega
  | cons p l ih =>
    rw [List.cons_append, readable] at hread
    have hp := hl p List.mem_cons_self
    by_cases hval : headerAlign n < stop ∧ isValidVariableHeader (headerAt s.bytes p) = true
    · rw [if_pos hval, List.cons.injEq] at hread
      have hone := le_authSizeAfter s n p
      obtain ⟨hlaid, hlai'⟩ := h
      have hnext := nextAt_of_laid hlaid hbase hp
      obtain ⟨l', last, htra, hmap, hlast, hsiz⟩ := ih hlai' (by omega)
        (fun p hp => hl p (List.mem_cons_of_mem _ hp)) hread.2
      obtain ⟨hsame, hvar, -⟩ := hlaid.variableAt_eq
      have hali := headerAlign_ge n
      refine ⟨(base + headerAlign n) :: l', last, .next ?_ ?_, ?_, hlast, ?_⟩
      · exact isValidAt_iff.mpr ⟨by omega, by omega, hsame.trans hval.2⟩
      · rwa [hnext]
      · rw [List.map_cons, List.map_cons, hmap, hvar]
      · intro q hq
        rcases List.mem_cons.mp hq with rfl | hq
        · have hle := hlai'.le
          have hname := congrArg (fun v : StoredVariable => v.name.length) hvar
          simp only [variableAt, length_readBytes] at hname
          refine ⟨Nat.le_add_right _ _, ?_⟩
          rw [hname]
          have hsize : nameSizeOfVariable (headerAt s.bytes p) false ≤
              nameSize (headerAt s.bytes p) false := by
            unfold nameSizeOfVariable
            split_ifs <;> omega
          unfold authSizeAfter at hle
          simp only [getVariableHeaderSize, if_true] at hle
          omega
        · exact hsiz q hq
    · rw [if_neg hval] at hread
      cases hread

lemma length_of_readable_ne (h : Laid s bytes base n (l ++ rest) e) (hbase : base % 4 = 0)
    (hn : 0 < n) (hl : ∀ p ∈ l, isErased (headerAt s.bytes p) false = false)
    (hread : readable s stop n (l ++ rest) ≠ l)
    (htra : Trace bytes true (base + stop) (base + headerAlign n) l' last) :
    l'.length ≠ l.length := by
  have hali := headerAlign_ge n
  induction l generalizing n l' with
  | nil =>
    cases rest with
    | nil => exact absurd rfl hread
    | cons p rest =>
      rw [List.nil_append, readable] at hread
      split_ifs at hread with hval
      · cases htra with
        | done hv =>
          rw [isValidAt_iff.mpr ⟨by omega, by omega, h.1.variableAt_eq.1.trans hval.2⟩] at hv
          cases hv
        | next => simp
      · exact absurd rfl hread
  | cons p l ih =>
    rw [List.cons_append, readable] at hread
    obtain ⟨hlaid, hlai'⟩ := h
    have hone := le_authSizeAfter s n p
    cases htra with
    | done => simp
    | next hv htra =>
      obtain ⟨-, hlt, hval⟩ := isValidAt_iff.mp hv
      rw [if_pos ⟨by omega, by rwa [← hlaid.variableAt_eq.1]⟩, ne_eq, List.cons.injEq] at hread
      rw [nextAt_of_laid hlaid hbase (hl p List.mem_cons_self)] at htra
      have hrest := ih hlai' (by omega) (fun p hp => hl p (List.mem_cons_of_mem _ hp))
        (fun heq => hread ⟨rfl, heq⟩) htra (headerAlign_ge _)
      simpa using hrest

/-! ### The conversion -/

/-- The store that the conversion makes: an authenticated store whose walk visits just the added
variables, so that each search that an added variable answers finds the same one. -/
structure Converts (g : Global) (s s' : Region) : Prop where
  signature : word s'.bytes s'.base 16 = gEfiAuthenticatedVariableGuid
  status : getVariableStoreStatus s'.bytes s'.base = .efiValid
  contents : s'.contents true = (s.contents false).filter isAdded
  lookups : ∀ atRuntime q name, IsName name → readBytes q.variableName 0 name.length = name →
    (∃ v ∈ s.contents false, isAdded v = true ∧ q.sees { g with atRuntime := atRuntime } v = true) →
      lookupValue { g with authFormat := false, atRuntime := atRuntime } s q =
        lookupValue { g with authFormat := true, atRuntime := atRuntime } s' q

/-- The end of the new store, whose size has 32 bits. -/
def authEnd (s : Region) : ℕ := headerAlign (authSizeOf s s.reachedAdded % 2 ^ 32)

/-- The copies of the visited variables lie in front of the end; the next added variable that the
loops reach, if any, has a wrong start identifier, or its copy lies behind the end. -/
structure ReadsBack (s : Region) : Prop where
  front : ∀ i < s.visitedAdded.length,
    headerAlign (authSizeOf s (s.visitedAdded.take i)) < authEnd s
  behind : ∀ p, s.reachedAdded[s.visitedAdded.length]? = some p →
    isValidVariableHeader (headerAt s.bytes p) = false ∨
      authEnd s ≤ headerAlign (authSizeOf s s.visitedAdded)

lemma readsBack_iff : ReadsBack s ↔ readable s (authEnd s) variableStoreHeaderSize s.reachedAdded =
    s.visitedAdded := by
  obtain ⟨rest, hrest⟩ := reachedAdded_eq s
  have hhead : s.reachedAdded[s.visitedAdded.length]? = rest.head? := by
    rw [hrest, List.getElem?_append_right le_rfl, Nat.sub_self, List.head?_eq_getElem?]
  have hiff := @readable_eq_iff s (authEnd s) variableStoreHeaderSize s.visitedAdded rest
    fun p hp => visitedAdded_valid hp
  rw [hrest, hiff, ← hhead]
  exact ⟨fun h => ⟨h.front, h.behind⟩, fun h => ⟨h.1, h.2⟩⟩

lemma readsBack_iff_of_lt (h : authSizeOf s s.reachedAdded < 2 ^ 32) : ReadsBack s ↔
    ∀ p, s.reachedAdded[s.visitedAdded.length]? = some p →
      isValidVariableHeader (headerAt s.bytes p) = false := by
  obtain ⟨rest, hrest⟩ := reachedAdded_eq s
  have hend : authEnd s = headerAlign (authSizeOf s s.reachedAdded) := by
    unfold authEnd
    rw [Nat.mod_eq_of_lt h]
  -- the next copy lies in front of the end
  have hlt : ∀ l p l', s.reachedAdded = l ++ p :: l' →
      headerAlign (authSizeOf s l) < authEnd s := by
    intro l p l' heq
    have hone := le_authSizeAfter s (authSizeOf s l) p
    have hle := authSizeOf_le_append s (l ++ [p]) l'
    have hali := headerAlign_ge (authSizeOf s s.reachedAdded)
    rw [authSizeOf_append, ← List.append_cons, ← heq] at hle
    omega
  constructor
  · intro hrea p hp
    rcases hrea.behind p hp with hinv | hge
    · exact hinv
    · obtain ⟨q, rest, rfl⟩ : ∃ q rest', rest = q :: rest' := by
        cases rest with
        | nil =>
          grind
        | cons q rest => exact ⟨q, rest, rfl⟩
      have hlast := hlt _ _ _ hrest
      omega
  · intro hall
    refine ⟨fun i hi => ?_, fun p hp => .inl (hall p hp)⟩
    apply hlt _ s.visitedAdded[i] (s.visitedAdded.drop (i + 1) ++ rest)
    rw [hrest, ← List.cons_append, ← List.append_assoc, List.getElem_cons_drop,
      List.take_append_drop]

lemma word_eq_fieldValue (bytes : Bytes) (o n : ℕ) : word bytes o n = fieldValue (bytesAt bytes o n) := by
  induction n generalizing o with
  | zero => rfl
  | succ n ih =>
    rw [Nat.add_comm, bytesAt_add, Nat.add_comm, word, ih]
    rfl

lemma word_writeBytes_field (bytes : Bytes) (a n v : ℕ) :
    word (writeBytes bytes a (field n v)) a n = v % 256 ^ n := by
  have hself : bytesAt (writeBytes bytes a (field n v)) a (field n v).length = field n v :=
    bytesAt_writeBytes_self
  rw [length_field] at hself
  rw [word_eq_fieldValue, hself, fieldValue_field]

lemma word_writeBytes_of_le {bytes : Bytes} {a : ℕ} {l : List UInt8} (h : a + l.length ≤ p) :
    word (writeBytes bytes a l) p n = word bytes p n :=
  word_congr fun _ _ => writeBytes_of_ge (by omega)

lemma writeBytes_readBytes_one (bytes : Bytes) (mem : Bytes) (a p : ℕ) :
    writeBytes bytes a (readBytes mem p 1) a = mem p := by
  apply writeBytes_of_getElem? le_rfl
  rw [Nat.sub_self]
  rfl

lemma getVariableStoreStatus_eq_valid {mem : Bytes} : getVariableStoreStatus mem p = .efiValid ↔
    (word mem p 16 = gEfiAuthenticatedVariableGuid ∨ word mem p 16 = gEfiVariableGuid) ∧
      word mem (p + 20) 1 = variableStoreFormatted ∧
        word mem (p + 21) 1 = variableStoreHealthy := by
  unfold getVariableStoreStatus
  simp only []
  split_ifs with hval <;> simp [hval]

/-- The new store: the copies behind its own header. -/
structure Converted (s s' : Region) : Prop where
  aligned : s'.base % 4 = 0
  room : s'.size = authSizeOf s s.reachedAdded
  laid : Laid s s'.bytes s'.base variableStoreHeaderSize s.reachedAdded
    (authSizeOf s s.reachedAdded)
  signature : word s'.bytes s'.base 16 = gEfiAuthenticatedVariableGuid
  size : word s'.bytes (s'.base + 16) 4 = authSizeOf s s.reachedAdded % 2 ^ 32
  format : s'.bytes (s'.base + 20) = s.bytes (s.base + 20)
  state : s'.bytes (s'.base + 21) = s.bytes (s.base + 21)

lemma convert_returns (hb : allocate (authSizeOf s s.reachedAdded) = some b)
    (hsize : b.size = authSizeOf s s.reachedAdded) (hbase : b.base % 4 = 0) :
    ∃ s', convertNormalVarStorageToAuthVarStorage g allocate s = .ok (some s') ∧
      Converted s s' := by
  have hge : 28 ≤ b.size := by
    rw [hsize]
    exact foldl_authSizeAfter_ge s _ _
  have hsta : b.startPtr = b.base + authSizeOf s [] := by
    unfold Region.startPtr getStartPointer
    rw [headerAlign_add hbase]
    rfl
  obtain ⟨⟨⟨bytes₁, base₁, size₁⟩, pos⟩, hrun, hconv⟩ :=
    (show Converting s b [] (b, b.startPtr) from ⟨rfl, rfl, hsta, rfl⟩).run hbase
      (show authSizeOf s ([] ++ s.reachedAdded) ≤ _ from hsize.ge)
  obtain ⟨rfl, rfl, rfl, hlaid⟩ : base₁ = b.base ∧ size₁ = b.size ∧
      pos = b.base + authSizeOf s s.reachedAdded ∧
      Laid s bytes₁ b.base variableStoreHeaderSize s.reachedAdded (authSizeOf s s.reachedAdded) :=
    ⟨hconv.base_eq, hconv.size_eq, hconv.pos, hconv.laid⟩
  have hwri : ∀ (bytes : Bytes) a (l : List UInt8), a + l.length ≤ 28 →
      (⟨bytes, b.base, b.size⟩ : Region).write (b.base + a) l =
        .ok ⟨writeBytes bytes (b.base + a) l, b.base, b.size⟩ := by
    intro bytes a l hle
    refine write_of_holds ⟨Nat.le_add_right _ _, ?_⟩
    change b.base + a + l.length ≤ b.base + b.size
    omega
  have hfst : ∀ (bytes : Bytes) (l : List UInt8), l.length ≤ 28 →
      (⟨bytes, b.base, b.size⟩ : Region).write b.base l =
        .ok ⟨writeBytes bytes b.base l, b.base, b.size⟩ := by
    intro bytes l hle
    exact hwri bytes 0 l (by omega)
  unfold convertNormalVarStorageToAuthVarStorage
  simp only [size_eq_authSizeOf, hb]
  rw [hrun, ok_bind]
  simp only [Nat.add_sub_cancel_left]
  rw [hwri _ 20 _ (by rw [length_readBytes]; decide), ok_bind,
    hwri _ 21 _ (by rw [length_readBytes]; decide), ok_bind,
    hwri _ 16 _ (by rw [length_field]; decide), ok_bind,
    hfst _ _ (by rw [length_field]; decide), ok_bind, if_neg]
  · refine ⟨_, rfl, ⟨hbase, hsize, ?_, ?_, ?_, ?_, ?_⟩⟩ <;> dsimp only
    · refine hlaid.congr fun i hi _ => ?_
      have hi : 28 ≤ i := hi
      rw [writeBytes_of_ge, writeBytes_of_ge, writeBytes_of_ge, writeBytes_of_ge] <;>
        simp only [length_readBytes, length_field] <;> omega
    · rw [word_writeBytes_field]
      decide
    · rw [word_writeBytes_of_le (by rw [length_field]), word_writeBytes_field]
      exact Nat.mod_mod _ _
    · rw [writeBytes_of_ge (by rw [length_field]; omega),
        writeBytes_of_ge (by rw [length_field]), writeBytes_of_lt (by omega),
        writeBytes_readBytes_one]
    · rw [writeBytes_of_ge (by rw [length_field]; omega),
        writeBytes_of_ge (by rw [length_field]; omega), writeBytes_readBytes_one]
  · rintro ⟨-, hlt⟩
    exact absurd (Nat.mod_le _ _) (Nat.not_le.mpr hlt)

lemma found_filter_isAdded {test : StoredVariable → Bool} {vars : List StoredVariable}
    {v : StoredVariable} (hv : v ∈ vars) (hadd : isAdded v = true) (htest : test v = true) :
    found test vars = found test (vars.filter isAdded) := by
  unfold found
  rw [pick_eq_or, pick_eq_or, List.find?_filter]
  have hsome : (vars.find? fun v => isAdded v && test v).isSome = true :=
    List.find?_isSome.mpr ⟨v, hv, by rw [hadd, htest]; rfl⟩
  obtain ⟨w, hw⟩ := Option.isSome_iff_exists.mp hsome
  have htwi : (fun v => decide (isAdded v = true ∧ (isAdded v && test v) = true)) =
      fun v => isAdded v && test v := by
    funext v
    cases isAdded v <;> simp
  rw [htwi, hw]
  rfl

lemma Converted.holds_iff (h : Converted s s') (hwf : WellFormed false s) :
    Converts g s s' ↔ ReadsBack s := by
  obtain ⟨rest, hrest⟩ := reachedAdded_eq s
  have hnot : ∀ p ∈ s.visitedAdded, isErased (headerAt s.bytes p) false = false := by
    intro p hp
    obtain ⟨hvis, hadd⟩ := List.mem_filter.mp hp
    have hlive : isAdded (variableAt s.bytes false p) = true := hadd
    have htwo := IsName.two_le (hwf.names _ (List.mem_map_of_mem hvis) (.inl hlive)).1
    rw [Bool.eq_false_iff]
    intro hera
    simp [variableAt, nameSizeOfVariable, hera] at htwo
  have hsta : s'.startPtr = s'.base + headerAlign variableStoreHeaderSize := by
    unfold Region.startPtr getStartPointer
    exact headerAlign_add h.aligned
  have hend : s'.endPtr = s'.base + authEnd s := by
    unfold Region.endPtr getEndPointer authEnd
    rw [h.size, headerAlign_add h.aligned]
  have hcon : (s.contents false).filter isAdded =
      s.visitedAdded.map (variableAt s.bytes false) := by
    unfold Region.contents Region.visitedAdded
    rw [List.filter_map]
    rfl
  have htra := s'.trace true
  rw [hsta, hend] at htra
  have hlaid := h.laid
  rw [hrest] at hlaid
  rw [readsBack_iff, hrest]
  constructor
  · intro hconv
    by_contra hne
    refine length_of_readable_ne hlaid h.aligned (by decide) hnot hne htra ?_
    have hlen := congrArg List.length hconv.contents
    rw [hcon] at hlen
    simpa [Region.contents] using hlen
  · intro hread
    have hstop : authEnd s ≤ headerAlign (authSizeOf s (s.visitedAdded ++ rest)) := by
      simp [← hrest, authEnd, headerAlign]
      omega
    obtain ⟨l', last, htra', hmap, hlast, hsiz⟩ :=
      walk_of_readable hlaid h.aligned (by decide) hstop hnot hread
    obtain ⟨hl', hlas'⟩ := htra.unique htra'
    have hrea' : s'.contents true = (s.contents false).filter isAdded := by
      unfold Region.contents at hcon ⊢
      rw [hcon, hl', hmap]
    have hroom : authSizeOf s (s.visitedAdded ++ rest) = s'.size := by rw [h.room, hrest]
    have hsea : Searchable true s' := by
      refine ⟨fun hlt => ?_, fun p hp => ?_, ?_⟩
      · rw [hend] at hlt
        change s'.walkEnd true = last at hlas'
        rw [hlas'] at hlt ⊢
        obtain ⟨hle, hin⟩ := hlast hlt
        exact ⟨by omega, by omega⟩
      · obtain ⟨hle, hin⟩ := hsiz p (hl' ▸ hp)
        have hhol : s'.Holds p (60 + nameSizeOfVariable (headerAt s'.bytes p) true) :=
          ⟨by omega, by omega⟩
        have hread := headerRead_le true (headerAt s'.bytes p)
        have h60 : getVariableHeaderSize true = 60 := rfl
        exact ⟨hhol.mono le_rfl (by omega), fun _ => hhol⟩
      · rw [hrea']
        intro v hv hlive
        exact hwf.names v (List.mem_filter.mp hv).1 hlive
    refine ⟨h.signature, ?_, hrea', ?_⟩
    · have hst := hwf.header.status
      have hone : ∀ o, s'.bytes (s'.base + o) = s.bytes (s.base + o) →
          word s'.bytes (s'.base + o) 1 = word s.bytes (s.base + o) 1 := by
        intro o heq
        unfold word
        rw [heq]
        rfl
      rw [getVariableStoreStatus_eq_valid] at hst ⊢
      rw [h.signature, hone 20 h.format, hone 21 h.state]
      exact ⟨.inl rfl, hst.2⟩
    · rintro atRuntime q name hname hpass ⟨v, hv, hadd, hsees⟩
      rw [@lookupValue_eq { g with authFormat := false, atRuntime := atRuntime } s q name
        hwf.searchable hname hpass, @lookupValue_eq
        { g with authFormat := true, atRuntime := atRuntime } s' q name hsea hname hpass]
      change Except.ok ((found _ (s.contents false)).map value) =
        Except.ok ((found _ (s'.contents true)).map value)
      rw [hrea', found_filter_isAdded hv hadd]
      rw [← hsees]
      exact (sees_eq hname hpass (hwf.names v hv (.inl hadd)).1).symm

theorem converts_iff (g : Global) (allocate : ℕ → Option Region) (s b : Region)
    (hwf : WellFormed false s) (hb : allocate (authSizeOf s s.reachedAdded) = some b)
    (hsize : b.size = authSizeOf s s.reachedAdded) (haligned : b.base % 8 = 0) :
    ∃ s', convertNormalVarStorageToAuthVarStorage g allocate s = .ok (some s') ∧
      (Converts g s s' ↔ ReadsBack s) := by
  obtain ⟨s', hs', hconverted⟩ := @convert_returns g s b allocate hb hsize (by omega)
  exact ⟨s', hs', hconverted.holds_iff hwf⟩

/-- A store with the added variable `A`, a header that was not written, and the added variable `B`,
whose identifier starts with the given byte. -/
def gapStore (id : UInt8) : Region :=
  ⟨fun a => ([0x16, 0x36, 0xcf, 0xdd, 0x75, 0x32, 0x64, 0x41, 0x98, 0xb6, 0xfe, 0x85, 0x70, 0x7f,
      0xfe, 0x7d, 140, 0, 0, 0, 0x5a, 0xfe, 0, 0, 0, 0, 0, 0] ++
    [0xaa, 0x55, 0x3f, 0, 7, 0, 0, 0, 4, 0, 0, 0, 4, 0, 0, 0,
      1, 2, 3, 4, 5, 6, 7, 8, 9, 10, 11, 12, 13, 14, 15, 16, 65, 0, 0, 0, 1, 0, 0, 0] ++
    List.replicate 32 0 ++
    [id, 0x55, 0x3f, 0, 7, 0, 0, 0, 4, 0, 0, 0, 4, 0, 0, 0,
      1, 2, 3, 4, 5, 6, 7, 8, 9, 10, 11, 12, 13, 14, 15, 16, 66, 0, 0, 0, 2, 0, 0, 0]).getD a 0xff,
    0, 140⟩

def varA : StoredVariable :=
  ⟨varAdded, 7, 0x100f0e0d0c0b0a090807060504030201, [65, 0, 0, 0], [1, 0, 0, 0]⟩

lemma visited_gapStore : (gapStore 0).visited false = [28] ∧
    (gapStore 0xaa).visited false = [28] := by decide

lemma contents_gapStore : (gapStore 0).contents false = [varA] ∧
    (gapStore 0xaa).contents false = [varA] := by decide

lemma reachedAdded_gapStore : (gapStore 0).reachedAdded = [28, 100] ∧
    (gapStore 0xaa).reachedAdded = [28, 100] := by decide

lemma visitedAdded_gapStore : (gapStore 0).visitedAdded = [28] ∧
    (gapStore 0xaa).visitedAdded = [28] := by decide

lemma authSizeOf_gapStore : authSizeOf (gapStore 0) [28, 100] = 164 ∧
    authSizeOf (gapStore 0xaa) [28, 100] = 164 := by decide

lemma wellFormed_gapStore {id : UInt8} (hhdr : HasHeader (gapStore id))
    (hvis : (gapStore id).visited false = [28]) (hcon : (gapStore id).contents false = [varA])
    (hsize : sizeAt (gapStore id) false 28 = 40) : WellFormed false (gapStore id) where
  header := hhdr
  aligned := by
    change 0 % 4 = 0 ∧ 140 % 4 = 0
    decide
  holds := by
    intro p hp
    rw [hvis, List.mem_singleton] at hp
    subst hp
    rw [hsize]
    change 0 ≤ 28 ∧ 28 + 40 ≤ 0 + 140
    decide
  names := by
    intro v hv _
    rw [hcon, List.mem_singleton] at hv
    subst hv
    exact ⟨⟨[(65, 0)], List.forall_mem_singleton.mpr (by decide), rfl⟩, by decide⟩

lemma wellFormed_noGap : WellFormed false (gapStore 0) :=
  wellFormed_gapStore ⟨by decide, by decide, by decide⟩ visited_gapStore.1 contents_gapStore.1
    (by decide)

lemma wellFormed_gap : WellFormed false (gapStore 0xaa) :=
  wellFormed_gapStore ⟨by decide, by decide, by decide⟩ visited_gapStore.2 contents_gapStore.2
    (by decide)

/-- A pool that gives out zeroed memory at address 0. -/
def zeroPool (size : ℕ) : Option Region := some ⟨fun _ => 0, 0, size⟩

/-- The variable behind the gap has a wrong identifier as well. -/
theorem converts_gapStore : ∃ s', convertNormalVarStorageToAuthVarStorage plainGlobal zeroPool
    (gapStore 0) = .ok (some s') ∧ Converts plainGlobal (gapStore 0) s' := by
  obtain ⟨s', hs', hiff⟩ := converts_iff plainGlobal zeroPool (gapStore 0) _ wellFormed_noGap rfl rfl
    rfl
  refine ⟨s', hs', hiff.mpr ?_⟩
  have hlt : authSizeOf (gapStore 0) (gapStore 0).reachedAdded < 2 ^ 32 := by
    rw [reachedAdded_gapStore.1, authSizeOf_gapStore.1]
    decide
  rw [readsBack_iff_of_lt hlt, reachedAdded_gapStore.1, visitedAdded_gapStore.1]
  intro p hp
  cases hp
  decide

theorem not_converts_gapStore : ¬ ∀ g (allocate : ℕ → Option Region) s b, WellFormed false s →
    allocate (authSizeOf s s.reachedAdded) = some b → b.size = authSizeOf s s.reachedAdded →
      b.base % 8 = 0 → ∃ s', convertNormalVarStorageToAuthVarStorage g allocate s = .ok (some s') ∧
        Converts g s s' := by
  intro h
  obtain ⟨s', hs', hconverts⟩ := h plainGlobal zeroPool (gapStore 0xaa) _ wellFormed_gap rfl rfl rfl
  obtain ⟨s'', hs'', hconverted⟩ := @convert_returns plainGlobal (gapStore 0xaa) _ zeroPool rfl rfl rfl
  obtain rfl : s' = s'' := by
    rw [hs'] at hs''
    cases hs''
    rfl
  have hlt : authSizeOf (gapStore 0xaa) (gapStore 0xaa).reachedAdded < 2 ^ 32 := by
    rw [reachedAdded_gapStore.2, authSizeOf_gapStore.2]
    decide
  have hreads := (hconverted.holds_iff wellFormed_gap).mp hconverts
  rw [readsBack_iff_of_lt hlt, reachedAdded_gapStore.2, visitedAdded_gapStore.2] at hreads
  exact absurd (hreads 100 rfl) (by decide)

end Edk2.VariableDxe
