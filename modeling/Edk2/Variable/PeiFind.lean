import Edk2.Variable.PeiRead

/-!
# Searching with the index table

The index table holds the distances between the variables at the beginning of the store. What a
search has seen so far decides its outcome: it stops at the first added copy, and otherwise remembers
the last copy that is about to be deleted.
-/

namespace Edk2.Variable

open Outcome

variable {mem : Bytes} {platform : Platform} {ftw : FtwLastWriteData} {n k m : ℕ} {hobs : Hobs}
  {request : GetRequest} {name : List UInt8} {guid : ℕ}

section Pick

variable {α : Type} {added deleted : α → Bool} {l l' : List α} {a : α}

lemma pick_of_added (hl : l.find? added = none) (ha : added a = true) :
    pick added deleted (l ++ a :: l') = some a := by
  simp only [pick, List.find?_append, hl, Option.none_or, List.find?_cons, ha]

lemma pick_of_none (hl : l.find? added = none) :
    pick added deleted l = (l.filter deleted).getLast? := by
  simp only [pick, hl]

lemma mem_of_pick (h : pick added deleted l = some a) :
    a ∈ l ∧ (added a = true ∨ deleted a = true) := by
  cases hl : l.find? added with
  | some b =>
    grind [pick]
  | none =>
    grind [pick_of_none]

end Pick

/-- The variable with number `k` is a copy, in the given state, of the requested one. -/
def copyNumber (mem : Bytes) (platform : Platform) (ftw : FtwLastWriteData) (name : List UInt8)
    (guid state k : ℕ) : Bool :=
  (variableNumber mem platform ftw k).isCopy state name guid

/-- The number of the copy that counts. -/
def pickNumber (mem : Bytes) (platform : Platform) (ftw : FtwLastWriteData) (name : List UInt8)
    (guid : ℕ) (l : List ℕ) : Option ℕ :=
  pick (copyNumber mem platform ftw name guid varAdded)
    (copyNumber mem platform ftw name guid varInDeletedAdded) l

/-- The pointer to the variable with the given number, or `NULL`. -/
def ptrTo (mem : Bytes) (platform : Platform) (ftw : FtwLastWriteData) : Option ℕ → ℕ
  | none => 0
  | some k => ftw.place (position mem platform ftw k)

/-- A search has seen the variables of a list, and goes on. -/
structure Seen (mem : Bytes) (platform : Platform) (ftw : FtwLastWriteData) (name : List UInt8)
    (guid : ℕ) (l : List ℕ) (inDeleted : ℕ) : Prop where
  added : l.find? (copyNumber mem platform ftw name guid varAdded) = none
  deleted : inDeleted = ptrTo mem platform ftw
    ((l.filter (copyNumber mem platform ftw name guid varInDeletedAdded)).getLast?)

lemma seen_nil : Seen mem platform ftw name guid [] 0 := ⟨rfl, rfl⟩

section Seen

variable {l : List ℕ} {inDeleted : ℕ}

lemma Seen.pick_eq (h : Seen mem platform ftw name guid l inDeleted) :
    inDeleted = ptrTo mem platform ftw (pickNumber mem platform ftw name guid l) := by
  rw [h.deleted, pickNumber, pick_of_none h.added]

lemma Seen.skip (h : Seen mem platform ftw name guid l inDeleted)
    (hno : ∀ state, state = varAdded ∨ state = varInDeletedAdded →
      copyNumber mem platform ftw name guid state k = false) :
    Seen mem platform ftw name guid (l ++ [k]) inDeleted := by
  constructor
  · simp [List.find?_append, h.added, hno varAdded (.inl rfl)]
  · rw [List.filter_append, List.filter_cons_of_neg, List.filter_nil, List.append_nil]
    · exact h.deleted
    · simp [hno varInDeletedAdded (.inr rfl)]

lemma Seen.delete (h : Seen mem platform ftw name guid l inDeleted)
    (hcopy : copyNumber mem platform ftw name guid varInDeletedAdded k = true) :
    Seen mem platform ftw name guid (l ++ [k]) (ftw.place (position mem platform ftw k)) := by
  have hsta : (variableNumber mem platform ftw k).state = varInDeletedAdded :=
    (of_decide_eq_true hcopy).1
  have hoth : copyNumber mem platform ftw name guid varAdded k = false := by
    apply decide_eq_false
    rw [hsta]
    exact fun hboth => absurd hboth.1 (by decide)
  constructor
  · simp [List.find?_append, h.added, hoth]
  · rw [List.filter_append, List.filter_cons_of_pos hcopy, List.filter_nil, List.getLast?_concat]
    rfl

lemma copyNumber_of_not_live {s : ℕ} (h : isLive (headerNumber mem platform ftw k) = false)
    (hs : s = varAdded ∨ s = varInDeletedAdded) :
    copyNumber mem platform ftw name guid s k = false := by
  by_contra hne
  have hcopy := of_decide_eq_true (Bool.not_eq_false _ ▸ hne)
  have hsta : state (headerNumber mem platform ftw k) = s := hcopy.1
  rw [isLive, decide_eq_false_iff_not] at h
  exact h (hs.imp hsta.trans hsta.trans)

end Seen

/-- The numbers of the variables below `m` that are there. -/
def liveBelow (mem : Bytes) (platform : Platform) (ftw : FtwLastWriteData) (m : ℕ) : List ℕ :=
  (List.range m).filter fun k => isLive (headerNumber mem platform ftw k)

lemma liveBelow_of_live (h : isLive (headerNumber mem platform ftw k) = true) :
    liveBelow mem platform ftw (k + 1) = liveBelow mem platform ftw k ++ [k] := by
  simp [liveBelow, List.range_succ, h]

lemma liveBelow_of_not_live (h : isLive (headerNumber mem platform ftw k) = false) :
    liveBelow mem platform ftw (k + 1) = liveBelow mem platform ftw k := by
  simp [liveBelow, List.range_succ, h]

lemma liveBelow_getLast (h : (liveBelow mem platform ftw m).getLast? = some k) :
    k < m ∧ isLive (headerNumber mem platform ftw k) = true ∧
      liveBelow mem platform ftw (k + 1) = liveBelow mem platform ftw m := by
  induction m with
  | zero => cases h
  | succ m ih =>
    cases hlive : isLive (headerNumber mem platform ftw m) with
    | true =>
      grind [liveBelow_of_live, List.getLast?_concat]
    | false =>
      grind [liveBelow_of_not_live]

lemma live_and_copy {s : ℕ} (hs : s = varAdded ∨ s = varInDeletedAdded) (k : ℕ) :
    (isLive (headerNumber mem platform ftw k) && copyNumber mem platform ftw name guid s k) =
      copyNumber mem platform ftw name guid s k := by
  cases hlive : isLive (headerNumber mem platform ftw k) with
  | true => rfl
  | false => rw [copyNumber_of_not_live hlive hs]; rfl

lemma find_liveBelow (m : ℕ) : (liveBelow mem platform ftw m).find?
    (copyNumber mem platform ftw name guid varAdded) =
      (List.range m).find? (copyNumber mem platform ftw name guid varAdded) := by
  simp only [liveBelow, List.find?_filter, Bool.decide_and, Bool.decide_eq_true,
    live_and_copy (.inl rfl)]

lemma filter_liveBelow (m : ℕ) : (liveBelow mem platform ftw m).filter
    (copyNumber mem platform ftw name guid varInDeletedAdded) =
      (List.range m).filter (copyNumber mem platform ftw name guid varInDeletedAdded) := by
  simp only [liveBelow, List.filter_filter, Bool.and_comm _ (isLive _), live_and_copy (.inr rfl)]

lemma pickNumber_liveBelow (m : ℕ) :
    pickNumber mem platform ftw name guid (liveBelow mem platform ftw m) =
      pickNumber mem platform ftw name guid (List.range m) := by
  simp only [pickNumber, pick, find_liveBelow, filter_liveBelow]

lemma seen_liveBelow {inDeleted : ℕ} :
    Seen mem platform ftw name guid (liveBelow mem platform ftw m) inDeleted ↔
      Seen mem platform ftw name guid (List.range m) inDeleted := by
  constructor
  · rintro ⟨h₁, h₂⟩
    exact ⟨find_liveBelow m ▸ h₁, filter_liveBelow m ▸ h₂⟩
  · rintro ⟨h₁, h₂⟩
    exact ⟨(find_liveBelow m).symm ▸ h₁, (filter_liveBelow m).symm ▸ h₂⟩

lemma liveBelow_prefix (h : m ≤ n) :
    liveBelow mem platform ftw m <+: liveBelow mem platform ftw n := by
  obtain ⟨j, rfl⟩ := Nat.exists_eq_add_of_le h
  rw [liveBelow, liveBelow, List.range_add, List.filter_append]
  exact List.prefix_append _ _

/-- The distances from each pointer to the next one. -/
def distances (last : ℕ) : List ℕ → List ℕ
  | [] => []
  | p :: rest => (p - last) :: distances p rest

@[simp] lemma length_distances (last : ℕ) (l : List ℕ) : (distances last l).length = l.length := by
  induction l generalizing last with
  | nil => rfl
  | cons p rest ih => simp only [distances, List.length_cons, ih]

lemma distances_concat (last p : ℕ) (l : List ℕ) :
    distances last (l ++ [p]) = distances last l ++ [p - l.getLastD last] := by
  induction l generalizing last with
  | nil => rfl
  | cons q rest ih =>
    simp only [List.cons_append, distances, ih, List.getLastD_cons]

/-- The pointers to the variables of a list. -/
def places (mem : Bytes) (platform : Platform) (ftw : FtwLastWriteData) (l : List ℕ) : List ℕ :=
  l.map fun k => ftw.place (position mem platform ftw k)

/-- The table covers the first `m` variables. -/
structure TableOk (mem : Bytes) (platform : Platform) (ftw : FtwLastWriteData) (n m : ℕ)
    (table : VariableIndexTable) : Prop where
  le : m ≤ n
  startPtr : table.startPtr = getStartPointer (platform.storeHeader mem)
  index : table.index = distances (getStartPointer (platform.storeHeader mem))
    (places mem platform ftw (liveBelow mem platform ftw m))
  length : table.index.length ≤ variableIndexTableVolume
  goneThrough : table.goneThrough ≠ 0 → m = n

/-- What holds of the HOBs between two calls. -/
structure HobsOk (mem : Bytes) (platform : Platform) (ftw : FtwLastWriteData) (n : ℕ)
    (hobs : Hobs) : Prop where
  header : HobOk mem platform ftw n hobs
  table : ∀ table, hobs.indexTable = some table → ∃ m, TableOk mem platform ftw n m table

section Benign

variable (h : SplitStore mem platform ftw n) (hb : Benign mem platform ftw)

include h hb

lemma place_mono {a b : ℕ} (hab : a ≤ b) : ftw.place a ≤ ftw.place b := by
  have := h.target_le_spare hb
  unfold FtwLastWriteData.place
  split_ifs <;> omega

lemma places_mono {i j : ℕ} (hij : i ≤ j) :
    ftw.place (position mem platform ftw i) ≤ ftw.place (position mem platform ftw j) :=
  place_mono h hb (position_mono hij)

lemma start_le_place (k : ℕ) :
    getStartPointer (platform.storeHeader mem) ≤ ftw.place (position mem platform ftw k) := by
  refine le_trans ?_ (place_mono h hb (start_le_position k))
  have := h.target_le_spare hb
  have := h.start
  unfold FtwLastWriteData.place
  split_ifs <;> omega

lemma lastPlace_le (m : ℕ) : (places mem platform ftw (liveBelow mem platform ftw m)).getLastD
    (getStartPointer (platform.storeHeader mem)) ≤ ftw.place (position mem platform ftw m) := by
  rw [List.getLastD_eq_getLast?, places, List.getLast?_map]
  cases hlast : (liveBelow mem platform ftw m).getLast? with
  | none => exact start_le_place h hb m
  | some j => exact places_mono h hb (liveBelow_getLast hlast).1.le

lemma place_lt_two_pow (hk : k < n) : ftw.place (position mem platform ftw k) < 2 ^ 64 := by
  have hlt := h.position_lt_end hk
  have hstop := h.stop
  have hbou := h.bounded
  have habo := hb.above
  have htar := h.target
  unfold FtwLastWriteData.place
  split_ifs <;> omega

omit h hb in
lemma copyNumber_of_match {s : ℕ} (hsta : state (headerNumber mem platform ftw k) = s)
    (hmat : (variableNumber mem platform ftw k).guid = guid ∧
      (variableNumber mem platform ftw k).name = name) :
    copyNumber mem platform ftw name guid s k = true :=
  decide_eq_true ⟨hsta, hmat⟩

omit h hb in
lemma copyNumber_of_no_match (s : ℕ) (hmat : ¬ ((variableNumber mem platform ftw k).guid = guid ∧
    (variableNumber mem platform ftw k).name = name)) :
    copyNumber mem platform ftw name guid s k = false :=
  decide_eq_false fun hcopy => hmat hcopy.2

/-- What the search through the table leaves. -/
structure TableSearched (mem : Bytes) (platform : Platform) (ftw : FtwLastWriteData) (n : ℕ)
    (name : List UInt8) (guid : ℕ) (done rest : List ℕ) (search : TableSearch) (hobs : Hobs)
    (r : Option ℕ × TableSearch) (hobs' : Hobs) : Prop where
  header : HobOk mem platform ftw n hobs'
  indexTable : hobs'.indexTable = hobs.indexTable
  found : ∀ ptr, r.1 = some ptr → ∃ j, ptr = ftw.place (position mem platform ftw j) ∧
    ∀ l, pickNumber mem platform ftw name guid (done ++ rest ++ l) = some j
  seen : r.1 = none → Seen mem platform ftw name guid (done ++ rest) r.2.inDeletedVariable
  last : r.1 = none → ∀ j, rest.getLast? = some j →
    r.2.maxIndex = ftw.place (position mem platform ftw j) ∧
      SameHeader (splitInfo mem platform ftw).authFlag r.2.variableHeader
        (headerNumber mem platform ftw j)
  start : r.1 = none → rest = [] → r.2 = search

omit h hb in
lemma TableSearched.cons {done rest : List ℕ} {j : ℕ} {search search' : TableSearch}
    {hobs₁ hobs' : Hobs} {r : Option ℕ × TableSearch}
    (hs : TableSearched mem platform ftw n name guid (done ++ [j]) rest search' hobs₁ r hobs')
    (htab : hobs₁.indexTable = hobs.indexTable)
    (hmax : search'.maxIndex = ftw.place (position mem platform ftw j))
    (hhdr : SameHeader (splitInfo mem platform ftw).authFlag search'.variableHeader
      (headerNumber mem platform ftw j)) :
    TableSearched mem platform ftw n name guid done (j :: rest) search hobs r hobs' := by
  have hlist : done ++ [j] ++ rest = done ++ j :: rest := List.append_cons done j rest ▸ rfl
  refine ⟨hs.header, hs.indexTable.trans htab, hlist ▸ hs.found, hlist ▸ hs.seen, ?_,
    fun _ hnil => (nomatch hnil)⟩
  intro hnone i hi
  cases rest with
  | nil =>
    cases hi
    rw [hs.start hnone rfl]
    exact ⟨hmax, hhdr⟩
  | cons j' rest' =>
    rw [List.getLast?_cons_cons] at hi
    exact hs.last hnone i hi

lemma tableLoop_spec {done rest : List ℕ} {number last : ℕ} {search : TableSearch}
    (hpass : Passes mem platform request name) (hnon : name ≠ encode [])
    (hguid : request.variableGuid = some guid)
    (hrea : request.Readable mem platform ftw n name) (hhob : HobOk mem platform ftw n hobs)
    (hlive : ∀ j ∈ rest, j < n ∧ isLive (headerNumber mem platform ftw j) = true)
    (hsor : (last :: places mem platform ftw rest).Pairwise (· ≤ ·))
    (hlast : last = getStartPointer (platform.storeHeader mem) + search.offset)
    (hnum : number + rest.length ≤ variableIndexTableVolume)
    (hseen : Seen mem platform ftw name guid done search.inDeletedVariable) :
    Ends (tableLoop mem (splitInfo mem platform ftw) request.variableName guid
        (getStartPointer (platform.storeHeader mem)) (distances last (places mem platform ftw rest))
        number search hobs)
      (TableSearched mem platform ftw n name guid done rest search hobs) (fun _ _ => False) := by
  induction rest generalizing done number last search hobs with
  | nil =>
    refine ends_pure ⟨hhob, rfl, fun _ hsome => (nomatch hsome), fun _ => ?_, ?_, fun _ _ => rfl⟩
    · rw [List.append_nil]
      exact hseen
    · intro _ j hj
      cases hj
  | cons j rest ih =>
    obtain ⟨hj, hjli⟩ := hlive j List.mem_cons_self
    have hrest : ∀ i ∈ rest, i < n ∧ isLive (headerNumber mem platform ftw i) = true :=
      fun i hi => hlive i (List.mem_cons_of_mem j hi)
    have hle : last ≤ ftw.place (position mem platform ftw j) :=
      (List.pairwise_cons.mp hsor).1 _ List.mem_cons_self
    have hptr : getStartPointer (platform.storeHeader mem) +
        (search.offset + (ftw.place (position mem platform ftw j) - last)) =
          ftw.place (position mem platform ftw j) := by
      omega
    refine ends_bind (ends_ite (fun _ => ends_pure ?_) fun hfull => ?_)
    · simp only [hptr]
      refine ends_bind ((getVariableHeader_spec h hb hj.le hhob).imp ?_)
      rintro ⟨valid, header⟩ hobs₁ ⟨-, hsame, htab, hhob₁⟩
      refine ends_bind ((compareWithValidVariable_spec h hb hpass hnon hguid hrea hj hjli
        hsame).imp ?_)
      rintro found _ ⟨hfnd, rfl⟩
      have hsor' := (List.pairwise_cons.mp hsor).2
      have hlas' : ftw.place (position mem platform ftw j) = getStartPointer
        (platform.storeHeader mem) + (search.offset +
          (ftw.place (position mem platform ftw j) - last)) := hptr.symm
      have hnum' : number + 1 + rest.length ≤ variableIndexTableVolume := by
        rw [List.length_cons] at hnum
        omega
      refine ends_ite (fun hyes => ends_ite (fun hsta => ?_) fun hsta => ?_) fun hno => ?_
      · have hmat := of_decide_eq_true (hfnd.symm.trans hyes)
        have hcopy := copyNumber_of_match (hsame.state.symm.trans hsta) hmat
        refine (ih hhob₁ hrest hsor' hlas' hnum' (hseen.delete hcopy)).imp fun r _ hr => ?_
        exact hr.cons htab rfl hsame
      · have hmat := of_decide_eq_true (hfnd.symm.trans hyes)
        have hadd : state (headerNumber mem platform ftw j) = varAdded := by
          refine (of_decide_eq_true hjli).resolve_right fun hdel => hsta ?_
          exact hsame.state.trans hdel
        refine ends_pure ⟨hhob₁, htab, ?_, fun hnone => (nomatch hnone),
          fun hnone => (nomatch hnone), fun hnone => (nomatch hnone)⟩
        rintro ptr hsome
        cases hsome
        refine ⟨j, rfl, fun l => ?_⟩
        rw [List.append_assoc, List.cons_append]
        exact pick_of_added hseen.added (copyNumber_of_match hadd hmat)
      · have hmat := of_decide_eq_false (hfnd.symm.trans (Bool.not_eq_true _ ▸ hno))
        let search' : TableSearch := ⟨search.offset +
          (ftw.place (position mem platform ftw j) - last), ftw.place (position mem platform ftw j),
          header, search.inDeletedVariable⟩
        have hskip : Seen mem platform ftw name guid (done ++ [j]) search'.inDeletedVariable :=
          hseen.skip fun s _ => copyNumber_of_no_match s hmat
        refine (ih hhob₁ hrest hsor' hlas' hnum' hskip).imp fun r _ hr => ?_
        exact hr.cons htab rfl hsame
    · grind

end Benign

end Edk2.Variable
