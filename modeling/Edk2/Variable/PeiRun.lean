import Edk2.Variable.PeiFind

/-!
# Calls of `PeiGetVariable`

On a benign split store a sequence of calls returns what plain lookup in the merged image does: the
table covers the beginning of the store, and the search through the store goes on from there.
-/

namespace Edk2.Variable

open Outcome

variable {mem : Bytes} {platform : Platform} {ftw : FtwLastWriteData} {n k m : ℕ} {hobs : Hobs}
  {request : GetRequest} {name : List UInt8} {guid : ℕ}

/-- The search through the store stands at the variable with number `k`; as long as it records, the
table covers the variables before that one. -/
structure Recording (mem : Bytes) (platform : Platform) (ftw : FtwLastWriteData) (n k : ℕ)
    (search : StoreSearch) (hobs : Hobs) : Prop where
  header : HobOk mem platform ftw n hobs
  table : ∃ table m, hobs.indexTable = some table ∧ TableOk mem platform ftw n m table ∧
    table.goneThrough = 0 ∧ (search.stopRecord = false → m = k ∧ search.lastVariable =
      (places mem platform ftw (liveBelow mem platform ftw k)).getLastD
        (getStartPointer (platform.storeHeader mem)))

lemma Recording.hobsOk {search : StoreSearch} (hr : Recording mem platform ftw n k search hobs) :
    HobsOk mem platform ftw n hobs := by
  refine ⟨hr.header, fun table htab => ?_⟩
  obtain ⟨table', m, htab', hok, -⟩ := hr.table
  rw [htab] at htab'
  cases htab'
  exact ⟨m, hok⟩

lemma Recording.skip {search : StoreSearch} (hr : Recording mem platform ftw n k search hobs)
    (hk : k < n) (hlive : isLive (headerNumber mem platform ftw k) = false) (ptr inDeleted : ℕ) :
    Recording mem platform ftw n (k + 1)
      { search with ptr := ptr, inDeletedVariable := inDeleted } hobs := by
  obtain ⟨table, m, htab, hok, hgone, hrec⟩ := hr.table
  cases hstop : search.stopRecord with
  | true => exact ⟨hr.header, table, m, htab, hok, hgone, fun hrun => (nomatch hrun)⟩
  | false =>
    obtain ⟨rfl, hlast⟩ := hrec hstop
    have hbel := liveBelow_of_not_live hlive
    refine ⟨hr.header, table, m + 1, htab, ⟨hk, hok.startPtr, ?_, hok.length, ?_⟩, hgone, ?_⟩
    · rw [hbel]
      exact hok.index
    · exact fun hne => absurd hgone hne
    · intro _
      rw [hbel]
      exact ⟨rfl, hlast⟩

lemma Recording.move {search : StoreSearch} (hr : Recording mem platform ftw n k search hobs)
    (ptr inDeleted : ℕ) :
    Recording mem platform ftw n k { search with ptr := ptr, inDeletedVariable := inDeleted } hobs :=
  ⟨hr.header, hr.table⟩

section Benign

variable (h : SplitStore mem platform ftw n) (hb : Benign mem platform ftw)

include h hb

lemma recordVariable_spec {search : StoreSearch}
    (hr : Recording mem platform ftw n k search hobs) (hk : k < n)
    (hptr : search.ptr = ftw.place (position mem platform ftw k))
    (hlive : isLive (headerNumber mem platform ftw k) = true) :
    Ends (recordVariable (splitInfo mem platform ftw) search hobs)
      (fun search' hobs' => search'.ptr = search.ptr ∧
        search'.inDeletedVariable = search.inDeletedVariable ∧
          Recording mem platform ftw n (k + 1) search' hobs') (fun _ _ => False) := by
  obtain ⟨table, m, htab, hok, hgone, hrec⟩ := hr.table
  refine ends_bind (ends_get ?_)
  cases hstop : search.stopRecord with
  | true =>
    refine ends_pure ⟨rfl, rfl, hr.header, table, m, htab, hok, hgone, ?_⟩
    exact fun hrun => (nomatch hstop ▸ hrun)
  | false =>
    obtain ⟨rfl, hlast⟩ := hrec hstop
    rw [htab]
    have hle := lastPlace_le h hb m
    have hlt := place_lt_two_pow h hb hk
    have hoff : u64 (search.ptr + 2 ^ 64 - search.lastVariable) =
        ftw.place (position mem platform ftw m) -
          (places mem platform ftw (liveBelow mem platform ftw m)).getLastD
            (getStartPointer (platform.storeHeader mem)) := by
      rw [hptr, hlast, u64]
      omega
    refine ends_ite (fun _ => ends_pure ⟨rfl, rfl, ?_⟩) fun hroom => ?_
    · exact ⟨hr.header, table, m, htab, hok, hgone, fun hrun => (nomatch hrun)⟩
    · refine ends_bind (ends_set (ends_pure ⟨rfl, rfl, hr.header, _, m + 1, rfl,
        ⟨hk, hok.startPtr, ?_, ?_, fun hne => absurd hgone hne⟩, hgone, ?_⟩))
      · rw [liveBelow_of_live hlive, places, List.map_append, List.map_singleton, distances_concat,
          hoff, hok.index]
        rfl
      · have hlen := hok.length
        rw [List.length_append, List.length_singleton]
        omega
      · simp [liveBelow_of_live hlive, places, List.map_append]
        omega

/-! ### The search through the store -/

/-- What the search through the store leaves. -/
structure StoreSearched (mem : Bytes) (platform : Platform) (ftw : FtwLastWriteData) (n : ℕ)
    (name : List UInt8) (guid : ℕ) (r : Option ℕ × StoreSearch) (hobs' : Hobs) : Prop where
  found : ∀ ptr, r.1 = some ptr → ∃ j, ptr = ftw.place (position mem platform ftw j) ∧
    pickNumber mem platform ftw name guid (List.range n) = some j
  seen : r.1 = none → Seen mem platform ftw name guid (List.range n) r.2.inDeletedVariable
  hobsOk : HobsOk mem platform ftw n hobs'
  recording : r.1 = none → Recording mem platform ftw n n r.2 hobs'

omit h hb in
lemma pickNumber_range (hk : k < n)
    (hadd : (List.range k).find? (copyNumber mem platform ftw name guid varAdded) = none)
    (hcopy : copyNumber mem platform ftw name guid varAdded k = true) :
    pickNumber mem platform ftw name guid (List.range n) = some k := by
  obtain ⟨j, rfl⟩ := Nat.exists_eq_add_of_le (Nat.succ_le_of_lt hk)
  rw [Nat.succ_eq_add_one, List.range_add, List.range_succ, List.append_assoc, List.cons_append]
  exact pick_of_added hadd hcopy

lemma storeLoop_spec {fuel : ℕ} {search : StoreSearch}
    (hpass : Passes mem platform request name) (hnon : name ≠ encode [])
    (hguid : request.variableGuid = some guid)
    (hrea : request.Readable mem platform ftw n name)
    (hr : Recording mem platform ftw n k search hobs) (hk : k ≤ n) (hfuel : n - k < fuel)
    (hptr : search.ptr = ftw.place (position mem platform ftw k))
    (hseen : Seen mem platform ftw name guid (List.range k) search.inDeletedVariable) :
    Ends (storeLoop mem (splitInfo mem platform ftw) request.variableName guid fuel search hobs)
      (StoreSearched mem platform ftw n name guid) (fun _ _ => False) := by
  induction fuel generalizing k search hobs with
  | zero => exact absurd hfuel (Nat.not_lt_zero _)
  | succ fuel ih =>
    rw [storeLoop, hptr]
    refine ends_bind ((getVariableHeader_spec h hb hk hr.header).imp ?_)
    rintro ⟨valid, header⟩ hobs₁ ⟨hval, hsame, htab, hhob₁⟩
    have hr₁ : Recording mem platform ftw n k search hobs₁ := ⟨hhob₁, htab ▸ hr.table⟩
    have hnext := getNextVariablePtr_spec h hb hsame
    simp only at hval
    refine ends_ite (fun hin => ?_) fun hout => ?_
    · have hlt : k < n := of_decide_eq_true (hval.symm.trans hin)
      have hran : List.range (k + 1) = List.range k ++ [k] := List.range_succ
      have hlive := hsame.isLive
      simp only [hnext]
      refine ends_ite (fun hthe => ?_) fun hdead => ?_
      · rw [hlive] at hthe
        refine ends_bind ((recordVariable_spec h hb hr₁ hlt hptr hthe).imp ?_)
        rintro search' hobs₂ ⟨hptr', hdel', hr₂⟩
        rw [hptr', hptr]
        refine ends_bind ((compareWithValidVariable_spec h hb hpass hnon hguid hrea hlt
          hthe hsame).imp ?_)
        rintro found _ ⟨hfnd, rfl⟩
        refine ends_ite (fun hyes => ends_ite (fun hsta => ?_) fun hsta => ?_) fun hno => ?_
        · have hmat := of_decide_eq_true (hfnd.symm.trans hyes)
          have hcopy := copyNumber_of_match (hsame.state.symm.trans hsta) hmat
          exact ih (hr₂.move _ _) hlt (by omega) rfl (hran ▸ hseen.delete hcopy)
        · have hmat := of_decide_eq_true (hfnd.symm.trans hyes)
          have hadd : state (headerNumber mem platform ftw k) = varAdded := by
            refine (of_decide_eq_true hthe).resolve_right fun hdel => hsta ?_
            exact hsame.state.trans hdel
          refine ends_pure ⟨?_, fun hnone => (nomatch hnone), hr₂.hobsOk,
            fun hnone => (nomatch hnone)⟩
          rintro ptr hsome
          cases hsome
          exact ⟨k, rfl, pickNumber_range hlt hseen.added (copyNumber_of_match hadd hmat)⟩
        · have hmat := of_decide_eq_false (hfnd.symm.trans (Bool.not_eq_true _ ▸ hno))
          have hskip := hseen.skip fun s _ => copyNumber_of_no_match s hmat
          rw [← hran, ← hdel'] at hskip
          exact ih (hr₂.move _ _) hlt (by omega) rfl hskip
      · rw [hlive] at hdead
        have hdead : isLive (headerNumber mem platform ftw k) = false := Bool.not_eq_true _ ▸ hdead
        have hskip := hseen.skip fun s hs => copyNumber_of_not_live hdead hs
        rw [← hran] at hskip
        exact ih (hr₁.skip hlt hdead _ _) hlt (by omega) rfl hskip
    · have hend : k = n := by
        refine le_antisymm hk (not_lt.mp fun hlt => hout ?_)
        rw [hval, decide_eq_true hlt]
      subst hend
      exact ends_pure ⟨fun ptr hsome => (nomatch hsome), fun _ => hseen, hr₁.hobsOk, fun _ => hr₁⟩

/-- The outcome of a search for a variable. -/
def Found (mem : Bytes) (platform : Platform) (ftw : FtwLastWriteData) (n : ℕ) (name : List UInt8)
    (guid : ℕ) (r : EfiStatus × ℕ) : Prop :=
  match pickNumber mem platform ftw name guid (List.range n) with
  | some j => r = (.success, ftw.place (position mem platform ftw j))
  | none => r = (.notFound, 0)

lemma found_deletedOutcome {inDeleted : ℕ}
    (hseen : Seen mem platform ftw name guid (List.range n) inDeleted) :
    Found mem platform ftw n name guid (deletedOutcome inDeleted) := by
  rw [hseen.pick_eq, Found]
  cases pickNumber mem platform ftw name guid (List.range n) with
  | none => rfl
  | some j => rw [ptrTo, deletedOutcome, if_neg (place_ne_zero h hb j)]

omit h hb in
lemma found_some {j : ℕ}
    (hpick : pickNumber mem platform ftw name guid (List.range n) = some j) :
    Found mem platform ftw n name guid (.success, ftw.place (position mem platform ftw j)) := by
  rw [Found, hpick]

omit hb in
lemma SplitStore.number_le : n ≤ getEndPointer mem (platform.storeHeader mem) -
    getStartPointer (platform.storeHeader mem) := by
  have hstep : ∀ k, getStartPointer (platform.storeHeader mem) + k ≤
      position mem platform ftw k := by
    intro k
    induction k with
    | zero => exact le_rfl
    | succ k ih =>
      have hnext : position mem platform ftw k + getVariableHeaderSize _ ≤ _ := position_step k
      have hsize := headerSize_ge (splitInfo mem platform ftw).authFlag
      omega
  have hlast := h.last.1
  have hn := hstep n
  omega

lemma searchStore_spec {search : TableSearch}
    (hpass : Passes mem platform request name) (hnon : name ≠ encode [])
    (hguid : request.variableGuid = some guid)
    (hrea : request.Readable mem platform ftw n name)
    (hhob : HobOk mem platform ftw n hobs) {table : VariableIndexTable}
    (htab : hobs.indexTable = some table) (hok : TableOk mem platform ftw n m table)
    (hgone : table.goneThrough = 0)
    (hseen : Seen mem platform ftw name guid (liveBelow mem platform ftw m)
      search.inDeletedVariable)
    (hlast : ∀ j, (liveBelow mem platform ftw m).getLast? = some j →
      search.maxIndex = ftw.place (position mem platform ftw j) ∧
        SameHeader (splitInfo mem platform ftw).authFlag search.variableHeader
          (headerNumber mem platform ftw j))
    (hsta : liveBelow mem platform ftw m = [] → search.maxIndex = 0) :
    Ends (searchStore mem (splitInfo mem platform ftw) request.variableName guid search hobs)
      (fun r hobs' => Found mem platform ftw n name guid r ∧ HobsOk mem platform ftw n hobs')
      (fun _ _ => False) := by
  have hfuel := h.number_le
  refine ends_bind (Ends.imp (Q := StoreSearched mem platform ftw n name guid) ?_ ?_)
  · cases hlive : (liveBelow mem platform ftw m).getLast? with
    | none =>
      have hnil := List.getLast?_eq_none_iff.mp hlive
      rw [if_neg (not_not.mpr (hsta hnil))]
      refine storeLoop_spec (k := 0) h hb hpass hnon hguid hrea ⟨hhob, table, 0, htab, ?_,
        hgone, fun _ => ⟨rfl, rfl⟩⟩ (Nat.zero_le n) ?_ ?_ ?_
      · refine ⟨Nat.zero_le n, hok.startPtr, ?_, hok.length, fun hne => absurd hgone hne⟩
        rw [hok.index, hnil]
        rfl
      · change n - 0 < getEndPointer mem (platform.storeHeader mem) - _ + 1
        exact Nat.lt_succ_of_le hfuel
      · exact (place_below hb.first).symm
      · rw [hnil] at hseen
        exact hseen
    | some j =>
      obtain ⟨hmax, hsame⟩ := hlast j hlive
      obtain ⟨hjm, hjli, hbel⟩ := liveBelow_getLast hlive
      rw [if_pos (hmax ▸ place_ne_zero h hb j)]
      refine storeLoop_spec (k := j + 1) h hb hpass hnon hguid hrea ⟨hhob, table, j + 1,
        htab, ?_, hgone, fun _ => ⟨rfl, ?_⟩⟩ (hjm.trans_le hok.le) ?_ ?_ ?_
      · refine ⟨hjm.trans_le hok.le, hok.startPtr, ?_, hok.length, fun hne => absurd hgone hne⟩
        rw [hok.index, hbel]
      · simp [liveBelow_of_live hjli, places, List.map_append, hmax]
      · change n - (j + 1) < getEndPointer mem (platform.storeHeader mem) - _ + 1
        exact Nat.lt_succ_of_le ((Nat.sub_le _ _).trans hfuel)
      · simp only
        rw [hmax, getNextVariablePtr_spec h hb hsame]
      · rw [← seen_liveBelow, hbel]
        exact hseen
  · rintro ⟨found, last⟩ hobs' hr
    cases found with
    | some ptr =>
      obtain ⟨j, rfl, hpick⟩ := hr.found ptr rfl
      exact ends_pure ⟨found_some hpick, hr.hobsOk⟩
    | none =>
      have hrec := hr.recording rfl
      obtain ⟨table', m', htab', hok', hgon', hrec'⟩ := hrec.table
      refine ends_bind (ends_ite (fun hall => ends_modify (ends_pure ⟨?_, hrec.header, ?_⟩))
        fun _ => ends_pure (ends_pure ⟨?_, hr.hobsOk⟩))
      · exact found_deletedOutcome h hb (hr.seen rfl)
      · intro table'' htab''
        rw [htab', Option.map_some] at htab''
        cases htab''
        have hstop : last.stopRecord = false := by
          rw [Bool.and_eq_true, Bool.not_eq_true'] at hall
          exact hall.2
        obtain ⟨hm', -⟩ := hrec' hstop
        exact ⟨m', hok'.le, hok'.startPtr, hok'.index, hok'.length, fun _ => hm'⟩
      · exact found_deletedOutcome h hb (hr.seen rfl)

lemma places_sorted (m : ℕ) : (getStartPointer (platform.storeHeader mem) ::
    places mem platform ftw (liveBelow mem platform ftw m)).Pairwise (· ≤ ·) := by
  refine List.pairwise_cons.mpr ⟨fun p hp => ?_, ?_⟩
  · obtain ⟨j, -, rfl⟩ := List.mem_map.mp hp
    exact start_le_place h hb j
  · refine List.pairwise_map.mpr (List.Pairwise.filter _ ?_)
    exact (List.pairwise_lt_range).imp fun hij => places_mono h hb hij.le

lemma findVariableEx_spec (hpass : Passes mem platform request name) (hnon : name ≠ encode [])
    (hguid : request.variableGuid = some guid)
    (hrea : request.Readable mem platform ftw n name) {table : VariableIndexTable}
    (hhobs : HobsOk mem platform ftw n hobs) (htab : hobs.indexTable = some table) :
    Ends (findVariableEx mem (splitInfo mem platform ftw) request.variableName guid hobs)
      (fun r hobs' => Found mem platform ftw n name guid r ∧ HobsOk mem platform ftw n hobs')
      (fun _ _ => False) := by
  obtain ⟨m, hok⟩ := hhobs.table table htab
  have hhdr : platform.storeHeader mem ≠ 0 := by
    unfold Platform.storeHeader
    have := h.base
    omega
  refine ends_ite (fun hzero => absurd hzero hhdr) fun _ => ?_
  refine ends_ite (fun hst => absurd h.status hst) fun _ => ?_
  refine ends_ite (fun hsize => absurd hsize h.size) fun _ => ends_bind (ends_get ?_)
  rw [htab]
  have hlen : 0 + (liveBelow mem platform ftw m).length ≤ variableIndexTableVolume := by
    have hle := hok.length
    rw [hok.index, length_distances, places, List.length_map] at hle
    rw [Nat.zero_add]
    exact hle
  have hlive : ∀ j ∈ liveBelow mem platform ftw m, j < n ∧
      isLive (headerNumber mem platform ftw j) = true := by
    intro j hj
    obtain ⟨hran, hjli⟩ := List.mem_filter.mp hj
    exact ⟨(List.mem_range.mp hran).trans_le hok.le, hjli⟩
  let search : TableSearch := ⟨0, 0, mem, 0⟩
  have hseen : Seen mem platform ftw name guid [] search.inDeletedVariable := seen_nil
  have hsea := tableLoop_spec h hb hpass hnon hguid hrea hhobs.header hlive
    (places_sorted h hb m) rfl hlen hseen
  rw [← hok.index, ← hok.startPtr] at hsea
  refine ends_bind (hsea.imp ?_)
  rintro ⟨found, search'⟩ hobs₁ hs
  have htab₁ := hs.indexTable.trans htab
  have hhob₁ : HobsOk mem platform ftw n hobs₁ := ⟨hs.header, hs.indexTable ▸ hhobs.table⟩
  cases found with
  | some ptr =>
    obtain ⟨j, rfl, hpick⟩ := hs.found ptr rfl
    have hpre : liveBelow mem platform ftw m <+: liveBelow mem platform ftw n :=
      liveBelow_prefix hok.le
    obtain ⟨l, hl⟩ := hpre
    have hpick := hpick l
    rw [List.nil_append, hl, pickNumber_liveBelow] at hpick
    exact ends_pure ⟨found_some hpick, hhob₁⟩
  | none =>
    refine ends_ite (fun hgone => ends_pure ⟨?_, hhob₁⟩) fun hgone => ?_
    · have hm := hok.goneThrough hgone
      subst hm
      exact found_deletedOutcome h hb (seen_liveBelow.mp (hs.seen rfl))
    · refine searchStore_spec h hb hpass hnon hguid hrea hs.header htab₁ hok
        (not_not.mp hgone) (hs.seen rfl) (hs.last rfl) fun hnil => ?_
      exact congrArg TableSearch.maxIndex (hs.start rfl hnil)

/-! ### The service -/

omit hb in
lemma getNvVariableStore_spec (hhobs : HobsOk mem platform ftw n hobs) :
    Ends (getNvVariableStore mem platform hobs)
      (fun storeInfo hobs' => storeInfo = splitInfo mem platform ftw ∧
        HobsOk mem platform ftw n hobs' ∧ ∃ table, hobs'.indexTable = some table)
      (fun _ _ => False) := by
  have hbase : platform.nvStorageBase < ftw.targetAddress := by
    refine lt_of_lt_of_le ?_ h.start
    refine lt_of_lt_of_le ?_ (headerAlign_ge _)
    unfold Platform.storeHeader variableStoreHeaderSize
    omega
  have hfv : platform.fvHeader = (platform.nvStorageBase, some ftw) := by
    simp only [Platform.fvHeader, h.ftwHob]
    rw [if_neg hbase.ne', if_pos ⟨hbase, h.target⟩]
  refine ends_ite (fun hemu => absurd hemu (by rw [h.emulated]; exact Bool.false_ne_true))
    fun _ => ?_
  refine ends_bind (ends_ite (fun _ => ends_pure ?_) fun hzero => ?_)
  · rw [hfv]
    refine ends_ite (fun hbad => ?_) fun _ => ?_
    · exact absurd hbad (not_or.mpr ⟨not_not.mpr h.signature, not_not.mpr h.fileSystem⟩)
    · refine ends_bind (ends_bind (ends_get ?_))
      cases htab : hobs.indexTable with
      | some table => exact ends_pure (ends_pure ⟨rfl, hhobs, table, htab⟩)
      | none =>
        refine ends_set (ends_pure ⟨rfl, ⟨hhobs.header, fun table hsome => ?_⟩, _, rfl⟩)
        cases hsome
        exact ⟨0, Nat.zero_le n, rfl, rfl, Nat.zero_le _, fun hne => absurd rfl hne⟩
  · exact absurd (decide_eq_true h.base) hzero

lemma findVariable_spec (hpass : Passes mem platform request name) (hnon : name ≠ encode [])
    (hguid : request.variableGuid = some guid)
    (hrea : request.Readable mem platform ftw n name)
    (hhobs : HobsOk mem platform ftw n hobs) :
    Ends (findVariable mem platform request.variableName guid hobs)
      (fun r hobs' => r.2.2 = splitInfo mem platform ftw ∧
        Found mem platform ftw n name guid (r.1, r.2.1) ∧ HobsOk mem platform ftw n hobs')
      (fun _ _ => False) := by
  have hhob : getHobVariableStore platform = ⟨0, false, none, false⟩ := by
    simp only [getHobVariableStore, h.authHob, h.hob]
  -- there is no store in a HOB
  refine ends_bind (ends_pure ?_)
  rw [hhob]
  refine ends_bind (ends_ite (fun _ => ends_pure ?_) fun hne => absurd rfl hne)
  refine ends_bind ((getNvVariableStore_spec h hhobs).imp ?_)
  rintro _ hobs₁ ⟨rfl, hhob₁, table, htab⟩
  refine ends_bind ((findVariableEx_spec h hb hpass hnon hguid hrea hhob₁ htab).imp ?_)
  rintro ⟨status, ptr⟩ hobs₂ ⟨hfnd, hhob₂⟩
  refine ends_ite (fun herr => ends_pure ⟨rfl, ?_, hhob₂⟩) fun _ => ends_pure ⟨rfl, hfnd, hhob₂⟩
  unfold Found at hfnd ⊢
  cases hpick : pickNumber mem platform ftw name guid (List.range n) with
  | none => rfl
  | some j =>
    rw [hpick] at hfnd
    cases hfnd
    cases herr

omit h hb in
lemma getVariableNameOrData_zero (mem : Bytes) (storeInfo : VariableStoreInfo) (ptr : ℕ) :
    getVariableNameOrData mem storeInfo ptr 0 = [] := by
  unfold getVariableNameOrData
  cases storeInfo.ftwLastWriteData with
  | none => rfl
  | some ftw => exact if_neg fun hacr => absurd hacr.1 hacr.2.not_gt

lemma data_spec {header : Bytes} (hrea : request.Readable mem platform ftw n name) (hk : k < n)
    (hlive : isLive (headerNumber mem platform ftw k) = true)
    (hguid : request.variableGuid = some (variableNumber mem platform ftw k).guid)
    (hname : (variableNumber mem platform ftw k).name = name)
    (hsame : SameHeader (splitInfo mem platform ftw).authFlag header
      (headerNumber mem platform ftw k)) :
    getVariableNameOrData mem (splitInfo mem platform ftw)
      (getVariableDataPtr (ftw.place (position mem platform ftw k)) header
        (splitInfo mem platform ftw).authFlag)
      (dataSizeOfVariable (headerNumber mem platform ftw k) (splitInfo mem platform ftw).authFlag) =
        (variableNumber mem platform ftw k).data := by
  have hspa := h.target_le_spare hb
  have hptr (hside : ftw.targetAddress ≤ position mem platform ftw k ∨
      getVariableDataPtr (position mem platform ftw k) (headerNumber mem platform ftw k)
        (splitInfo mem platform ftw).authFlag < ftw.targetAddress) :
      getVariableDataPtr (ftw.place (position mem platform ftw k)) header
        (splitInfo mem platform ftw).authFlag = ftw.place (getVariableDataPtr
          (position mem platform ftw k) (headerNumber mem platform ftw k)
            (splitInfo mem platform ftw).authFlag) := by
    simp only [getVariableDataPtr, getVariableNamePtr, hsame.nameSize, Nat.add_assoc] at hside ⊢
    exact (place_add hside).symm
  rcases Nat.lt_or_ge (position mem platform ftw k) ftw.targetAddress with hlt | hge
  · rcases (hrea k hk hlive hlt hguid).2.2 hname with hdata | hzero
    · rw [hptr (.inr hdata)]
      exact getVariableNameOrData_eq hspa
    · have hnil : (variableNumber mem platform ftw k).data = [] := by
        apply List.eq_nil_of_length_eq_zero
        rw [variableNumber, variableAt, length_readBytes]
        exact hzero
      rw [hzero, hnil]
      exact getVariableNameOrData_zero _ _ _
  · rw [hptr (.inl hge)]
    exact getVariableNameOrData_eq hspa

lemma peiGetVariable_spec (hpass : request.variableName ≠ 0 → Passes mem platform request name)
    (hrea : request.Readable mem platform ftw n name)
    (hhobs : HobsOk mem platform ftw n hobs) :
    Ends (peiGetVariable mem platform request hobs)
      (fun r hobs' => r = plainGetVariable ((List.range n).map (variableNumber mem platform ftw))
        request name ∧ HobsOk mem platform ftw n hobs') (fun _ _ => False) := by
  unfold peiGetVariable plainGetVariable
  cases hguid : request.variableGuid with
  | none => exact ends_pure ⟨rfl, hhobs⟩
  | some guid =>
    cases hsize : request.dataSize with
    | none => exact ends_pure ⟨rfl, hhobs⟩
    | some size =>
      simp only
      by_cases hnull : request.variableName = 0
      · rw [if_pos hnull, if_pos hnull]
        exact ends_pure ⟨rfl, hhobs⟩
      rw [if_neg hnull, if_neg hnull]
      have hpass := hpass hnull
      have hfst := hpass.isName.word_eq_zero_iff hpass.bytes
      by_cases hemp : name = encode []
      · grind [ends_pure]
      rw [if_neg (mt hfst.mp hemp), if_neg hemp]
      refine ends_bind ((findVariable_spec h hb hpass hemp hguid hrea hhobs).imp ?_)
      rintro ⟨status, ptr, storeInfo⟩ hobs₁ ⟨hinfo, hfnd, hhob₁⟩
      simp only at hinfo hfnd
      subst hinfo
      have hloo : lookup ((List.range n).map (variableNumber mem platform ftw)) name guid =
        (pickNumber mem platform ftw name guid (List.range n)).map
          (variableNumber mem platform ftw) := pick_map _ _ _ _
      rw [hloo]
      unfold Found at hfnd
      cases hpick : pickNumber mem platform ftw name guid (List.range n) with
      | none =>
        rw [hpick] at hfnd
        cases hfnd
        exact ends_pure ⟨rfl, hhob₁⟩
      | some j =>
        rw [hpick] at hfnd
        cases hfnd
        obtain ⟨hj, hcopy⟩ := mem_of_pick hpick
        have hj := List.mem_range.mp hj
        have hlive : isLive (headerNumber mem platform ftw j) = true :=
          decide_eq_true (hcopy.imp (fun hc => (of_decide_eq_true hc).1)
            fun hc => (of_decide_eq_true hc).1)
        have hmat : (variableNumber mem platform ftw j).guid = guid ∧
            (variableNumber mem platform ftw j).name = name :=
          hcopy.elim (fun hc => (of_decide_eq_true hc).2) fun hc => (of_decide_eq_true hc).2
        refine ends_bind ((getVariableHeader_spec h hb hj.le hhob₁.header).imp ?_)
        rintro ⟨valid, header⟩ hobs₂ ⟨-, hsame, htab, hhob₂⟩
        refine ends_pure ⟨?_, hhob₂, htab ▸ hhob₁.table⟩
        have hdata := data_spec h hb hrea hj hlive (hmat.1 ▸ hguid) hmat.2 hsame
        have hlen : (variableNumber mem platform ftw j).data.length = dataSizeOfVariable
          (headerNumber mem platform ftw j) (splitInfo mem platform ftw).authFlag :=
            length_readBytes _ _ _
        simp only [hsame.dataSize, hsame.attributes, hdata, Option.map_some, hlen]
        rfl

end Benign

/-- A sequence of calls. -/
def runCalls (mem : Bytes) (platform : Platform) : List GetRequest → PeiM (List GetAnswer)
  | [] => return []
  | request :: rest => do
    let answer ← peiGetVariable mem platform request
    let answers ← runCalls mem platform rest
    return answer :: answers

lemma runCalls_spec (h : SplitStore mem platform ftw n) (hb : Benign mem platform ftw)
    {calls : List (GetRequest × List UInt8)}
    (hpass : ∀ c ∈ calls, c.1.variableName ≠ 0 → Passes mem platform c.1 c.2)
    (hrea : ∀ c ∈ calls, c.1.Readable mem platform ftw n c.2)
    (hhobs : HobsOk mem platform ftw n hobs) :
    Ends (runCalls mem platform (calls.map Prod.fst) hobs)
      (fun r _ => r = calls.map fun c =>
        plainGetVariable ((List.range n).map (variableNumber mem platform ftw)) c.1 c.2)
      (fun _ _ => False) := by
  induction calls generalizing hobs with
  | nil => exact ends_pure rfl
  | cons c rest ih =>
    refine ends_bind ((peiGetVariable_spec h hb (hpass c List.mem_cons_self)
      (hrea c List.mem_cons_self) hhobs).imp ?_)
    rintro answer hobs₁ ⟨hansw, hhob₁⟩
    refine ends_bind ((ih (fun c hc => hpass c (List.mem_cons_of_mem _ hc))
      (fun c hc => hrea c (List.mem_cons_of_mem _ hc)) hhob₁).imp ?_)
    rintro answers _ hans
    exact ends_pure (congrArg₂ List.cons hansw hans)

/-- On a benign split store, calls that do not read behind the split return what plain lookup in the
merged image does. -/
theorem peiGetVariable_runs_plain (mem : Bytes) (platform : Platform) (ftw : FtwLastWriteData) (n : ℕ)
    (calls : List (GetRequest × List UInt8)) (h : SplitStore mem platform ftw n)
    (hb : Benign mem platform ftw)
    (hpass : ∀ c ∈ calls, c.1.variableName ≠ 0 → Passes mem platform c.1 c.2)
    (hreadable : ∀ c ∈ calls, c.1.Readable mem platform ftw n c.2) :
    ∃ hobs, runCalls mem platform (calls.map Prod.fst) ⟨none, none⟩ =
      .ok (calls.map fun c =>
        plainGetVariable ((List.range n).map (variableNumber mem platform ftw)) c.1 c.2) hobs := by
  have hhobs : HobsOk mem platform ftw n ⟨none, none⟩ :=
    ⟨fun header hheader => (nomatch hheader), fun table htable => (nomatch htable)⟩
  have hspec := runCalls_spec h hb hpass hreadable hhobs
  rcases hrun : runCalls mem platform (calls.map Prod.fst) ⟨none, none⟩ with ⟨answers, hobs⟩ | ⟨f, hobs⟩
  · rw [hspec.of_ok hrun]
    exact ⟨hobs, rfl⟩
  · exact (hspec.of_error hrun).elim

/-- The storage from address 16 on: a volume header, a store header, and a variable with the name
`A` at address 96, whose data are at address 132. A spare block, and the name at address 600. -/
def splitMemory (data : List UInt8) (spareAddress : ℕ) (spare : List UInt8) : Bytes := fun a =>
  if a < 300 then
    (([0, 0, 0, 0, 0, 0, 0, 0, 0, 0, 0, 0, 0, 0, 0, 0,
      0x8d, 0x2b, 0xf1, 0xff, 0x96, 0x76, 0x8b, 0x4c, 0xa9, 0x85, 0x27, 0x47, 0x07, 0x5b, 0x4f, 0x50,
      184, 0, 0, 0, 0, 0, 0, 0, 0x5f, 0x46, 0x56, 0x48, 0, 0, 0, 0, 52, 0, 0, 0,
      0x16, 0x36, 0xcf, 0xdd, 0x75, 0x32, 0x64, 0x41, 0x98, 0xb6, 0xfe, 0x85, 0x70, 0x7f, 0xfe, 0x7d,
      132, 0, 0, 0, 0x5a, 0xfe, 0, 0, 0, 0, 0, 0,
      0xaa, 0x55, 0x3f, 0, 7, 0, 0, 0, 4, 0, 0, 0, 4, 0, 0, 0,
      1, 0, 0, 0, 0, 0, 0, 0, 0, 0, 0, 0, 0, 0, 0, 0,
      0x41, 0, 0, 0] : List UInt8) ++ data).getD (a - 16) 0xff
  else if a < 600 then spare.getD (a - spareAddress) 0xff
  else ([0x41, 0, 0, 0] : List UInt8).getD (a - 600) 0

def splitPlatform (ftw : FtwLastWriteData) : Platform := ⟨false, 184, 0, 16, none, none, some ftw⟩

/-- A call for the variable. -/
def splitRequest : GetRequest := ⟨600, some 1, true, some 16, true⟩

/-- The data lie across the split, which is at address 134. -/
def acrossMemory : Bytes := splitMemory [1, 2, 0, 0] 302 [3, 4]

def acrossWrite : FtwLastWriteData := ⟨134, 302⟩

lemma splitStore_across : SplitStore acrossMemory (splitPlatform acrossWrite) acrossWrite 1 where
  emulated := rfl
  base := by decide
  authHob := rfl
  hob := rfl
  ftwHob := rfl
  signature := by decide
  fileSystem := by decide
  status := by decide
  size := by decide
  start := by decide
  target := by decide
  stop := by decide
  disjoint := by decide
  bounded := by decide
  valid := by decide
  last := by decide
  names := by
    intro k hk _
    obtain rfl := Nat.lt_one_iff.mp hk
    exact ⟨[(0x41, 0)], List.forall_mem_singleton.mpr (by decide), by decide⟩

/-- Two calls for a variable whose data lie across the split. -/
theorem peiGetVariable_across_plain :
    ∃ hobs, runCalls acrossMemory (splitPlatform acrossWrite) [splitRequest, splitRequest]
        ⟨none, none⟩ =
      .ok (([(splitRequest, [0x41, 0, 0, 0]), (splitRequest, [0x41, 0, 0, 0])] :
        List (GetRequest × List UInt8)).map fun c =>
          plainGetVariable ((List.range 1).map
            (variableNumber acrossMemory (splitPlatform acrossWrite) acrossWrite)) c.1 c.2) hobs := by
  refine peiGetVariable_runs_plain acrossMemory (splitPlatform acrossWrite) acrossWrite 1
    [(splitRequest, [0x41, 0, 0, 0]), (splitRequest, [0x41, 0, 0, 0])] splitStore_across
    ⟨by decide, by decide, by decide, by decide⟩ ?_ ?_
  · intro c hc _
    obtain rfl : c = (splitRequest, [0x41, 0, 0, 0]) := by
      simpa only [List.mem_cons, List.not_mem_nil, or_false, or_self] using hc
    exact ⟨⟨[(0x41, 0)], List.forall_mem_singleton.mpr (by decide), rfl⟩, by decide, by decide⟩
  · intro c hc k hk _ _ _
    obtain rfl : c = (splitRequest, [0x41, 0, 0, 0]) := by
      simpa only [List.mem_cons, List.not_mem_nil, or_false, or_self] using hc
    obtain rfl := Nat.lt_one_iff.mp hk
    decide

/-- The data start at the split, which is at address 132. -/
def behindMemory : Bytes := splitMemory [0, 0, 0, 0] 300 [1, 2, 3, 4]

def behindWrite : FtwLastWriteData := ⟨132, 300⟩

lemma splitStore_behind : SplitStore behindMemory (splitPlatform behindWrite) behindWrite 1 where
  emulated := rfl
  base := by decide
  authHob := rfl
  hob := rfl
  ftwHob := rfl
  signature := by decide
  fileSystem := by decide
  status := by decide
  size := by decide
  start := by decide
  target := by decide
  stop := by decide
  disjoint := by decide
  bounded := by decide
  valid := by decide
  last := by decide
  names := by
    intro k hk _
    obtain rfl := Nat.lt_one_iff.mp hk
    exact ⟨[(0x41, 0)], List.forall_mem_singleton.mpr (by decide), by decide⟩

/-- The answers of a run. -/
def answersOf : EStateM.Result Halt Hobs (List GetAnswer) → Option (List GetAnswer)
  | .ok answers _ => some answers
  | .error _ _ => none

set_option maxRecDepth 4000 in
/-- The data of the variable are not read from the spare block. -/
theorem data_behind_split_not_read :
    SplitStore behindMemory (splitPlatform behindWrite) behindWrite 1 ∧
      Passes behindMemory (splitPlatform behindWrite) splitRequest [0x41, 0, 0, 0] ∧
      plainGetVariable ((List.range 1).map
          (variableNumber behindMemory (splitPlatform behindWrite) behindWrite)) splitRequest
          [0x41, 0, 0, 0] = ⟨.success, some 7, some 4, some [1, 2, 3, 4]⟩ ∧
      answersOf (runCalls behindMemory (splitPlatform behindWrite) [splitRequest] ⟨none, none⟩) =
        some [⟨.success, some 7, some 4, some [0, 0, 0, 0]⟩] := by
  refine ⟨splitStore_behind, ⟨⟨[(0x41, 0)], List.forall_mem_singleton.mpr (by decide), rfl⟩, ?_, ?_⟩, ?_, ?_⟩
  all_goals decide

end Edk2.Variable
