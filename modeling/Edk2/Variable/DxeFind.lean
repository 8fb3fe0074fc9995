import Edk2.Variable.Dxe

/-!
# What the walks read

A walk through a store succeeds exactly if the parts of the headers that it reads lie in the region.
Where all of this is so, `FindVariableEx` picks from the variables of the store.
-/

namespace Edk2.VariableDxe

open Variable Halting

variable {g : Global} {s : Region} {q : Query} {authFlag : Bool} {stop fuel ptr last : ℕ}
  {l : List ℕ}

/-- How many bytes of a header are read to find the next one. -/
def headerRead (authFlag : Bool) (header : Bytes) : ℕ :=
  if state header = 2 ^ 8 - 1 then 3 else sizesOffset authFlag + 8

lemma headerRead_ge (authFlag : Bool) (header : Bytes) : 3 ≤ headerRead authFlag header := by
  unfold headerRead sizesOffset
  split_ifs <;> decide

lemma headerRead_le (authFlag : Bool) (header : Bytes) :
    headerRead authFlag header ≤ getVariableHeaderSize authFlag := by
  unfold headerRead sizesOffset getVariableHeaderSize
  split_ifs <;> decide

lemma headerRead_of_live {header : Bytes} (h : isLive header = true) :
    headerRead authFlag header = sizesOffset authFlag + 8 := by
  simp only [isLive, decide_eq_true_eq] at h
  apply if_neg
  rcases h with h | h <;> rw [h] <;> decide

/-- The region holds what is read of the header at `ptr`. -/
def Region.HoldsHeader (s : Region) (authFlag : Bool) (ptr : ℕ) : Prop :=
  s.Holds ptr (headerRead authFlag (headerAt s.bytes ptr))

lemma isValidVariableHeader_eq_ok {b : Bool} : s.isValidVariableHeader ptr stop = .ok b ↔
    (ptr ≠ 0 → ptr < stop → s.Holds ptr 2) ∧ b = isValidAt s.bytes stop ptr := by
  unfold Region.isValidVariableHeader isValidAt
  by_cases hptr : ptr = 0 ∨ stop ≤ ptr
  · rw [if_pos hptr]
    have hinv : ¬ (ptr ≠ 0 ∧ ptr < stop ∧
        isValidVariableHeader (headerAt s.bytes ptr) = true) := by
      rintro ⟨hne, hlt, -⟩
      omega
    rw [decide_eq_false hinv]
    constructor
    · intro h
      cases h
      exact ⟨fun hne hlt => by omega, rfl⟩
    · rintro ⟨-, rfl⟩
      rfl
  · rw [if_neg hptr, touch_bind]
    have hne : ptr ≠ 0 ∧ ptr < stop := by omega
    constructor
    · rintro ⟨hhol, h⟩
      cases h
      exact ⟨fun _ _ => hhol, by simp [hne.1, hne.2]⟩
    · rintro ⟨hhol, rfl⟩
      exact ⟨hhol hne.1 hne.2, by simp [hne.1, hne.2]; rfl⟩

lemma touchSizes_eq_ok {u : Unit} (h2 : s.Holds ptr 2) : s.touchSizes authFlag ptr = .ok u ↔
    s.HoldsHeader authFlag ptr := by
  unfold Region.touchSizes Region.HoldsHeader headerRead
  rw [touch_bind]
  split_ifs with hsta
  · constructor
    · rintro ⟨h, -⟩
      exact ⟨h2.1, h.2⟩
    · intro h
      exact ⟨h.mono (by omega) (by omega), rfl⟩
  · rw [touch_eq_ok]
    constructor
    · rintro ⟨-, h⟩
      exact ⟨h2.1, by have := h.2; omega⟩
    · intro h
      exact ⟨h.mono (by omega) (by unfold sizesOffset; split_ifs <;> omega),
        h.mono (by omega) (by omega)⟩

lemma getNextVariablePtr_eq_ok {next : ℕ} (h2 : s.Holds ptr 2) :
    s.getNextVariablePtr authFlag ptr = .ok next ↔
      s.HoldsHeader authFlag ptr ∧ next = nextAt s.bytes authFlag ptr := by
  unfold Region.getNextVariablePtr
  rw [bind_eq_ok]
  constructor
  · rintro ⟨u, hu, h⟩
    cases h
    exact ⟨(touchSizes_eq_ok h2).mp hu, rfl⟩
  · rintro ⟨h, rfl⟩
    exact ⟨(), (touchSizes_eq_ok h2).mpr h, rfl⟩

lemma Region.HoldsHeader.two (h : s.HoldsHeader authFlag ptr) : s.Holds ptr 2 := by
  have hread := headerRead_ge authFlag (headerAt s.bytes ptr)
  exact h.mono le_rfl (by omega)

/-- The region holds what a walk reads: of each header on it, and of where it ends. -/
structure Region.HoldsWalk (s : Region) (authFlag : Bool) (stop : ℕ) (l : List ℕ) (last : ℕ) :
    Prop where
  headers : ∀ p ∈ l, s.HoldsHeader authFlag p
  stop : last < stop → s.Holds last 2

lemma forVariables_eq_ok {σ : Type} {body : ℕ → ℕ → σ → Except Fault σ} {acc acc' : σ} {e : ℕ}
    (h : Trace s.bytes authFlag stop ptr l last) (hptr : ptr ≠ 0) (hfuel : l.length < fuel) :
    forVariables authFlag s stop body fuel ptr acc = .ok (e, acc') ↔
      s.HoldsWalk authFlag stop l last ∧ e = last ∧
        l.foldlM (fun acc p => body p (nextAt s.bytes authFlag p) acc) acc = .ok acc' := by
  induction h generalizing fuel acc with
  | @done ptr hval =>
    cases fuel with
    | zero => cases hfuel
    | succ fuel =>
      unfold forVariables
      rw [bind_eq_ok]
      constructor
      · rintro ⟨b, hb, hrest⟩
        obtain ⟨hhol, rfl⟩ := isValidVariableHeader_eq_ok.mp hb
        rw [hval] at hrest
        cases hrest
        exact ⟨⟨by simp, hhol hptr⟩, rfl, rfl⟩
      · rintro ⟨hwalk, rfl, hacc⟩
        cases hacc
        refine ⟨false, isValidVariableHeader_eq_ok.mpr ⟨fun _ => hwalk.stop, hval.symm⟩, rfl⟩
  | @next ptr last l hval hrest ih =>
    obtain ⟨-, hlt, -⟩ := isValidAt_iff.mp hval
    have hnext := lt_nextAt s.bytes authFlag ptr
    cases fuel with
    | zero => cases hfuel
    | succ fuel =>
      rw [List.length_cons] at hfuel
      unfold forVariables
      rw [bind_eq_ok, List.foldlM_cons]
      constructor
      · rintro ⟨b, hb, h⟩
        obtain ⟨hhol, rfl⟩ := isValidVariableHeader_eq_ok.mp hb
        rw [hval, if_pos rfl, bind_eq_ok] at h
        obtain ⟨next, hnex, h⟩ := h
        obtain ⟨hhdr, rfl⟩ := (getNextVariablePtr_eq_ok (hhol hptr hlt)).mp hnex
        obtain ⟨acc₁, hbody, h⟩ := bind_eq_ok.mp h
        obtain ⟨hwalk, he, hfold⟩ := (ih (by omega) (by omega)).mp h
        exact ⟨⟨List.forall_mem_cons.mpr ⟨hhdr, hwalk.headers⟩, hwalk.stop⟩, he,
          bind_eq_ok.mpr ⟨acc₁, hbody, hfold⟩⟩
      · rintro ⟨hwalk, rfl, hfold⟩
        obtain ⟨hhdr, hhea⟩ := List.forall_mem_cons.mp hwalk.headers
        obtain ⟨acc₁, hbody, hfold⟩ := bind_eq_ok.mp hfold
        refine ⟨true, isValidVariableHeader_eq_ok.mpr ⟨fun _ _ => hhdr.two, hval.symm⟩, ?_⟩
        rw [if_pos rfl, bind_eq_ok]
        refine ⟨_, (getNextVariablePtr_eq_ok hhdr.two).mpr ⟨hhdr, rfl⟩, ?_⟩
        exact bind_eq_ok.mpr ⟨acc₁, hbody,
          (ih (by omega) (by omega)).mpr ⟨⟨hhea, hwalk.stop⟩, rfl, hfold⟩⟩

namespace Region

/-- The headers on the walk through the store. -/
def visited (s : Region) (authFlag : Bool) : List ℕ :=
  (walkFrom s.bytes authFlag s.endPtr (s.endPtr - s.startPtr + 1) s.startPtr).1

/-- Where the walk through the store ends. -/
def walkEnd (s : Region) (authFlag : Bool) : ℕ :=
  (walkFrom s.bytes authFlag s.endPtr (s.endPtr - s.startPtr + 1) s.startPtr).2

/-- The variables of the store. -/
def contents (s : Region) (authFlag : Bool) : List StoredVariable :=
  (s.visited authFlag).map (variableAt s.bytes authFlag)

lemma trace (s : Region) (authFlag : Bool) : Trace s.bytes authFlag s.endPtr s.startPtr
    (s.visited authFlag) (s.walkEnd authFlag) :=
  trace_walkFrom (Nat.lt_succ_self _)

lemma length_visited (s : Region) (authFlag : Bool) :
    (s.visited authFlag).length < s.endPtr - s.startPtr + 1 :=
  Nat.lt_succ_of_le (s.trace authFlag).length_le

lemma startPtr_ne_zero (s : Region) : s.startPtr ≠ 0 := by
  unfold startPtr getStartPointer headerAlign variableStoreHeaderSize
  omega

lemma startPtr_mod (s : Region) : s.startPtr % 4 = 0 := headerAlign_mod _

lemma base_le_startPtr (s : Region) : s.base + 28 ≤ s.startPtr := headerAlign_ge _

end Region

lemma forVariables_whole {σ : Type} {body : ℕ → ℕ → σ → Except Fault σ} {acc acc' : σ} {e : ℕ} :
    forVariables authFlag s s.endPtr body (s.endPtr - s.startPtr + 1) s.startPtr acc =
        .ok (e, acc') ↔
      s.HoldsWalk authFlag s.endPtr (s.visited authFlag) (s.walkEnd authFlag) ∧
        e = s.walkEnd authFlag ∧ (s.visited authFlag).foldlM
          (fun acc p => body p (nextAt s.bytes authFlag p) acc) acc = .ok acc' :=
  forVariables_eq_ok (s.trace authFlag) s.startPtr_ne_zero (s.length_visited authFlag)

/-! ### `FindVariableEx` -/

/-- The query sees the variable, and its name and GUID are those looked for. -/
def Query.sees (g : Global) (q : Query) (v : StoredVariable) : Bool :=
  (q.ignoreRtCheck || !g.atRuntime || hasRuntimeAccess v.attributes) &&
    (word q.variableName 0 2 = 0 ||
      (q.vendorGuid = v.guid && readBytes q.variableName 0 v.name.length = v.name))

/-- The live variable at `ptr` is seen. -/
def Query.wantsAt (g : Global) (s : Region) (q : Query) (ptr : ℕ) : Bool :=
  isLive (headerAt s.bytes ptr) && q.sees g (variableAt s.bytes g.authFormat ptr)

/-- What a search reads of a variable lies in the region. -/
structure Region.HoldsNamed (s : Region) (authFlag : Bool) (ptr : ℕ) : Prop where
  header : s.HoldsHeader authFlag ptr
  named : isLive (headerAt s.bytes ptr) = true → s.Holds ptr
    (getVariableHeaderSize authFlag + nameSizeOfVariable (headerAt s.bytes ptr) authFlag)

/-- `FindVariableEx` stops at this variable with an `ASSERT`. -/
def Nameless (g : Global) (s : Region) (ptr : ℕ) : Prop :=
  g.asserts = true ∧ isLive (headerAt s.bytes ptr) = true ∧
    nameSizeOfVariable (headerAt s.bytes ptr) g.authFormat = 0

lemma variableAt_name_length (bytes : Bytes) (authFlag : Bool) (ptr : ℕ) :
    (variableAt bytes authFlag ptr).name.length =
      nameSizeOfVariable (headerAt bytes ptr) authFlag := length_readBytes _ _ _

lemma headerSize_bounds (authFlag : Bool) : guidOffset authFlag + 16 =
    getVariableHeaderSize authFlag ∧ sizesOffset authFlag + 8 = guidOffset authFlag := by
  cases authFlag <;> decide

lemma isVisible_spec (h4 : s.Holds (ptr + 4) 4) : isVisible g s q ptr =
    .ok (q.ignoreRtCheck || !g.atRuntime || hasRuntimeAccess (attributes (headerAt s.bytes ptr))) := by
  unfold isVisible
  by_cases h : (q.ignoreRtCheck || !g.atRuntime) = true
  · rw [if_pos h, h, Bool.true_or]
    rfl
  · simp [h, touch_of_holds h4, Bool.false_or]

lemma isNamed_spec (h : s.HoldsNamed g.authFormat ptr)
    (hlive : isLive (headerAt s.bytes ptr) = true) :
    isNamed g s q ptr = .ok (word q.variableName 0 2 = 0 ||
        (q.vendorGuid = (variableAt s.bytes g.authFormat ptr).guid &&
          readBytes q.variableName 0 (variableAt s.bytes g.authFormat ptr).name.length =
            (variableAt s.bytes g.authFormat ptr).name)) ∨
      isNamed g s q ptr = .error .assert ∧ Nameless g s ptr := by
  obtain ⟨hguid, hsiz⟩ := headerSize_bounds g.authFormat
  have h32 := headerSize_ge g.authFormat
  have hnam := h.named hlive
  have hg : s.Holds (ptr + guidOffset g.authFormat) 16 := hnam.mono (by omega) (by omega)
  have hname : s.Holds (getVariableNamePtr ptr g.authFormat)
      (nameSizeOfVariable (headerAt s.bytes ptr) g.authFormat) :=
    hnam.mono (Nat.le_add_right _ _) (le_of_eq (Nat.add_assoc _ _ _))
  rw [variableAt_name_length]
  unfold isNamed
  by_cases hemp : word q.variableName 0 2 = 0
  · left
    simp only [hemp, if_true, decide_true, Bool.true_or]
    rfl
  simp only [hemp, if_false, decide_false, Bool.false_or]
  rw [touch_of_holds hg]
  change (if _ then _ else _) = _ ∨ (if _ then _ else _) = _ ∧ _
  by_cases hven : q.vendorGuid = vendorGuid (headerAt s.bytes ptr) g.authFormat
  · rw [if_pos hven, (touchSizes_eq_ok (u := ()) h.header.two).mpr h.header]
    change (if _ then _ else _) = _ ∨ (if _ then _ else _) = _ ∧ _
    by_cases hnone : g.asserts = true ∧ nameSizeOfVariable (headerAt s.bytes ptr) g.authFormat = 0
    · rw [if_pos hnone]
      exact .inr ⟨rfl, hnone.1, hlive, hnone.2⟩
    · rw [if_neg hnone, touch_of_holds hname]
      left
      simp only [variableAt, hven, decide_true, Bool.true_and]
      rfl
  · rw [if_neg hven]
    left
    simp only [variableAt, hven, decide_false, Bool.false_and]
    rfl

lemma qualifies_spec (h : s.HoldsNamed g.authFormat ptr) :
    qualifies g s q ptr = .ok (q.wantsAt g s ptr) ∨
      qualifies g s q ptr = .error .assert ∧ Nameless g s ptr := by
  have hread := headerRead_ge g.authFormat (headerAt s.bytes ptr)
  have h1 : s.Holds (ptr + 2) 1 := h.header.mono (by omega) (by omega)
  have h32 := headerSize_ge g.authFormat
  unfold qualifies Query.wantsAt Query.sees
  rw [touch_of_holds h1]
  change (if _ then _ else _) = _ ∨ (if _ then _ else _) = _ ∧ _
  by_cases hlive : isLive (headerAt s.bytes ptr) = true
  · have hnam := h.named hlive
    have h4 : s.Holds (ptr + 4) 4 := hnam.mono (by omega) (by omega)
    rw [if_pos hlive, isVisible_spec h4, hlive, Bool.true_and]
    change (if _ then _ else _) = _ ∨ (if _ then _ else _) = _ ∧ _
    by_cases hvis : (q.ignoreRtCheck || !g.atRuntime ||
        hasRuntimeAccess (attributes (headerAt s.bytes ptr))) = true
    · rw [if_pos hvis]
      have hatt : (variableAt s.bytes g.authFormat ptr).attributes =
        attributes (headerAt s.bytes ptr) := rfl
      rw [hatt, hvis, Bool.true_and]
      exact isNamed_spec h hlive
    · rw [if_neg hvis]
      rw [Bool.not_eq_true] at hvis
      left
      simp only [variableAt, hvis, Bool.false_and]
      rfl
  · rw [if_neg hlive]
    left
    rw [Bool.not_eq_true] at hlive
    rw [hlive]
    rfl

/-- What the search finds on a part of the walk: `CurrPtr` and `InDeletedTransitionPtr`. -/
def findIn (g : Global) (s : Region) (q : Query) :
    List ℕ → Option ℕ → Option ℕ × Option ℕ
  | [], inDeleted => (inDeleted, none)
  | p :: l, inDeleted =>
    if q.wantsAt g s p then
      if state (headerAt s.bytes p) = varInDeletedAdded then findIn g s q l (some p)
      else (some p, inDeleted)
    else findIn g s q l inDeleted

lemma findLoop_spec {inDeleted : Option ℕ} (h : Trace s.bytes g.authFormat s.endPtr ptr l last)
    (hptr : ptr ≠ 0) (hfuel : l.length < fuel) (hlast : last < s.endPtr → s.Holds last 2)
    (hnam : ∀ p ∈ l, s.HoldsNamed g.authFormat p) :
    findLoop g s q fuel ptr inDeleted = .ok (findIn g s q l inDeleted) ∨
      findLoop g s q fuel ptr inDeleted = .error .assert ∧ ∃ p ∈ l, Nameless g s p := by
  induction h generalizing fuel inDeleted with
  | @done ptr hval =>
    cases fuel with
    | zero => cases hfuel
    | succ fuel =>
      left
      unfold findLoop
      rw [isValidVariableHeader_eq_ok.mpr ⟨fun _ => hlast, hval.symm⟩]
      rfl
  | @next ptr last l hval hrest ih =>
    have hnext := lt_nextAt s.bytes g.authFormat ptr
    cases fuel with
    | zero => cases hfuel
    | succ fuel =>
      obtain ⟨hhere, hthe⟩ := List.forall_mem_cons.mp hnam
      have h2 := hhere.header.two
      have hgo : ∀ d, findLoop g s q fuel (nextAt s.bytes g.authFormat ptr) d =
            .ok (findIn g s q l d) ∨
          findLoop g s q fuel (nextAt s.bytes g.authFormat ptr) d = .error .assert ∧
            ∃ p ∈ ptr :: l, Nameless g s p := by
        intro d
        rw [List.length_cons] at hfuel
        rcases @ih fuel d (by omega) (by omega) hlast hthe with hok | ⟨herr, p, hp, hn⟩
        · exact .inl hok
        · exact .inr ⟨herr, p, List.mem_cons_of_mem _ hp, hn⟩
      unfold findLoop findIn
      rw [isValidVariableHeader_eq_ok.mpr ⟨fun _ _ => h2, hval.symm⟩]
      change (qualifies g s q ptr >>= _) = _ ∨ (qualifies g s q ptr >>= _) = _ ∧ _
      rcases qualifies_spec hhere with hq | ⟨hq, hnone⟩
      · rw [hq, (getNextVariablePtr_eq_ok h2).mpr ⟨hhere.header, rfl⟩]
        change (if _ then _ else _) = _ ∨ (if _ then _ else _) = _ ∧ _
        by_cases hwant : q.wantsAt g s ptr = true
        · rw [if_pos hwant, if_pos hwant]
          by_cases hsta : state (headerAt s.bytes ptr) = varInDeletedAdded
          · rw [if_pos hsta, if_pos hsta]
            exact hgo _
          · rw [if_neg hsta, if_neg hsta]
            exact .inl rfl
        · rw [if_neg hwant, if_neg hwant]
          exact hgo _
      · rw [hq]
        exact .inr ⟨rfl, ptr, List.mem_cons_self, hnone⟩

section Pick

variable {α : Type} {added deleted : α → Bool} {a : α} {rest : List α}

lemma pick_cons_added (h : added a = true) : pick added deleted (a :: rest) = some a := by
  simp only [pick, List.find?_cons, h]

lemma pick_cons_deleted (h : added a = false) (hd : deleted a = true) :
    pick added deleted (a :: rest) = (pick added deleted rest).or (some a) := by
  simp only [pick, List.find?_cons, h, List.filter_cons, hd, if_true]
  cases rest.find? added with
  | some b => rfl
  | none =>
    rw [List.getLast?_cons]
    cases (rest.filter deleted).getLast? <;> rfl

lemma pick_cons_skip (h : added a = false) (hd : deleted a = false) :
    pick added deleted (a :: rest) = pick added deleted rest := by
  simp only [pick, List.find?_cons, h, List.filter_cons, hd, Bool.false_eq_true, if_false]

end Pick

lemma findIn_fst (inDeleted : Option ℕ) : (findIn g s q l inDeleted).1 =
    (pick (fun p => state (headerAt s.bytes p) = varAdded && q.wantsAt g s p)
      (fun p => state (headerAt s.bytes p) = varInDeletedAdded && q.wantsAt g s p) l).or
        inDeleted := by
  induction l generalizing inDeleted with
  | nil => rfl
  | cons p l ih =>
    unfold findIn
    by_cases hwant : q.wantsAt g s p = true
    · have hlive : isLive (headerAt s.bytes p) = true :=
        (Bool.and_eq_true_iff.mp hwant).1
      rw [if_pos hwant]
      by_cases hsta : state (headerAt s.bytes p) = varInDeletedAdded
      · have hadd : state (headerAt s.bytes p) ≠ varAdded := by
          rw [hsta]
          decide
        rw [if_pos hsta, ih, pick_cons_deleted (by simp [hadd]) (by simp [hsta, hwant]),
          Option.or_assoc]
        rfl
      · have hadd : state (headerAt s.bytes p) = varAdded := by
          simp only [isLive, decide_eq_true_eq] at hlive
          exact hlive.resolve_right hsta
        rw [if_neg hsta, pick_cons_added (by simp [hadd, hwant])]
        rfl
    · rw [Bool.not_eq_true] at hwant
      rw [if_neg (by simp [hwant]), ih, pick_cons_skip (by simp [hwant]) (by simp [hwant])]

lemma findVariableEx_spec (hlast : s.walkEnd g.authFormat < s.endPtr →
      s.Holds (s.walkEnd g.authFormat) 2)
    (hnam : ∀ p ∈ s.visited g.authFormat, s.HoldsNamed g.authFormat p) :
    findVariableEx g s q = .ok (findIn g s q (s.visited g.authFormat) none) ∨
      findVariableEx g s q = .error .assert ∧ ∃ p ∈ s.visited g.authFormat, Nameless g s p :=
  findLoop_spec (s.trace g.authFormat) s.startPtr_ne_zero (s.length_visited g.authFormat) hlast hnam

end Edk2.VariableDxe
