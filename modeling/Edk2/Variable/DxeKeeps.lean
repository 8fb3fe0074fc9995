import Edk2.Variable.Compact

/-!
# What a reclaim keeps

A reclaim without a new variable leaves the compacted variables in the store. Every search finds the
same value there, and every name has one copy, exactly if the variables were unambiguous.
-/

namespace Edk2.VariableDxe

open Variable Bytes Firsts Halting

variable {g : Global} {services : Services} {s b cache : Region} {r : Request} {authFlag : Bool}
  {p q : ℕ} {l : List ℕ} {vars acc : List StoredVariable} {res : Reclaimed}

/-- A chain of variables that lie in the store one after the other, with proper names. -/
structure WellFormed (authFlag : Bool) (s : Region) : Prop where
  header : HasHeader s
  aligned : s.base % 4 = 0 ∧ s.size % 4 = 0
  holds : ∀ p ∈ s.visited authFlag, s.Holds p (sizeAt s authFlag p)
  names : ∀ v ∈ s.contents authFlag, isAdded v = true ∨ isInDeleted v = true →
    IsName v.name ∧ v.name ≠ encode []

/-- What a search reads lies in the store, and the live variables have proper names. -/
structure Searchable (authFlag : Bool) (s : Region) : Prop where
  last : s.walkEnd authFlag < s.endPtr → s.Holds (s.walkEnd authFlag) 2
  named : ∀ p ∈ s.visited authFlag, s.HoldsNamed authFlag p
  names : ∀ v ∈ s.contents authFlag, isAdded v = true ∨ isInDeleted v = true →
    IsName v.name ∧ v.name ≠ encode []

/-- The data and the attributes of the variable that `FindVariableEx` finds. -/
def lookupValue (g : Global) (s : Region) (q : Query) :
    Except Fault (Option (List UInt8 × ℕ)) := do
  let (currPtr, _) ← findVariableEx g s q
  return currPtr.map fun p => value (variableAt s.bytes g.authFormat p)

/-- At boot and at runtime every search finds the same value in both stores, and in the second one
every name has one added copy and no other one. -/
structure KeepsLookups (g : Global) (s s' : Region) : Prop where
  lookups : ∀ atRuntime q name, IsName name → readBytes q.variableName 0 name.length = name →
    lookupValue { g with atRuntime := atRuntime } s q =
      lookupValue { g with atRuntime := atRuntime } s' q
  one : ∀ v ∈ s'.contents g.authFormat, isAdded v = true ∨ isInDeleted v = true →
    isAdded v = true ∧ ((s'.contents g.authFormat).filter fun w =>
      (isAdded w || isInDeleted w) && keyOf w = keyOf v).length = 1

lemma isLive_iff : isLive (headerAt s.bytes p) = true ↔
    isAdded (variableAt s.bytes authFlag p) = true ∨
      isInDeleted (variableAt s.bytes authFlag p) = true := by
  unfold isLive isAdded isInDeleted
  rw [decide_eq_true_eq, decide_eq_true_eq, decide_eq_true_eq]
  exact Iff.rfl

lemma WellFormed.holdsNamed (h : WellFormed authFlag s) (hp : p ∈ s.visited authFlag) :
    s.HoldsNamed authFlag p := by
  have hhol := h.holds p hp
  have hge := sizeAt_ge s authFlag p
  have hread := headerRead_le authFlag (headerAt s.bytes p)
  exact ⟨hhol.mono le_rfl (by omega), fun _ => hhol.mono le_rfl (by omega)⟩

lemma Trace.last_mod {bytes : Bytes} {stop ptr last : ℕ}
    (h : Trace bytes authFlag stop ptr l last) (hptr : ptr % 4 = 0) : last % 4 = 0 := by
  induction h with
  | done => exact hptr
  | next _ _ ih => exact ih (headerAlign_mod _)

lemma WellFormed.last (h : WellFormed authFlag s) (hlt : s.walkEnd authFlag < s.endPtr) :
    s.Holds (s.walkEnd authFlag) 2 := by
  have hmod := (s.trace authFlag).last_mod s.startPtr_mod
  have hle := (s.trace authFlag).bounds.1
  have hsta := s.base_le_startPtr
  obtain ⟨hbase, hsize⟩ := h.aligned
  unfold Region.endPtr getEndPointer at hlt
  rw [h.header.size] at hlt
  unfold headerAlign at hlt
  unfold Region.Holds
  omega

lemma WellFormed.searchable (h : WellFormed authFlag s) : Searchable authFlag s :=
  ⟨h.last, fun _ hp => h.holdsNamed hp, h.names⟩

lemma IsName.two_le {name : List UInt8} (h : IsName name) : 2 ≤ name.length := by
  obtain ⟨chars, -, rfl⟩ := h
  cases chars with
  | nil => exact le_rfl
  | cons c rest =>
    rw [encode_cons]
    simp only [List.length_cons]
    omega

lemma found_congr {test test' : StoredVariable → Bool} (h : ∀ v ∈ vars, isAdded v = true ∨
    isInDeleted v = true → test v = test' v) : found test vars = found test' vars := by
  have hadd : ∀ v ∈ vars, (isAdded v && test v) = (isAdded v && test' v) := by
    grind
  have hdel : ∀ v ∈ vars, (isInDeleted v && test v) = (isInDeleted v && test' v) := by
    grind
  unfold found
  rw [pick_eq_or, pick_eq_or, ← List.head?_filter, ← List.head?_filter,
    List.filter_congr hadd, List.filter_congr hdel]

/-- What is looked for: any variable, or the one of the given name. -/
def wantedKey (guid : ℕ) (name : List UInt8) : Option (ℕ × List UInt8) :=
  if name = encode [] then none else some (guid, name)

lemma sees_eq {query : Query} {name : List UInt8} {v : StoredVariable} (hname : IsName name)
    (hpass : readBytes query.variableName 0 name.length = name) (hv : IsName v.name) :
    query.sees g v = matchesKey (!query.ignoreRtCheck && g.atRuntime)
      (wantedKey query.vendorGuid name) v := by
  have hemp := hname.word_eq_zero_iff hpass
  have hsto := hname.readBytes_iff hv hpass
  have hseen : isSeen (!query.ignoreRtCheck && g.atRuntime) v =
      (query.ignoreRtCheck || !g.atRuntime || hasRuntimeAccess v.attributes) := by
    unfold isSeen
    cases query.ignoreRtCheck <;> cases g.atRuntime <;> rfl
  unfold Query.sees matchesKey wantedKey
  rw [hseen]
  congr 1
  by_cases hnil : name = encode []
  · rw [if_pos hnil]
    simp [hemp.mpr hnil]
  · have hword : ¬ word query.variableName 0 2 = 0 := fun h => hnil (hemp.mp h)
    rw [if_neg hnil]
    rw [Bool.eq_iff_iff]
    simp only [hword, decide_false, Bool.false_or, Bool.and_eq_true, decide_eq_true_eq, keyOf,
      Prod.mk.injEq, hsto]
    exact ⟨fun ⟨hg, hn⟩ => ⟨hg.symm, hn.symm⟩, fun ⟨hg, hn⟩ => ⟨hg.symm, hn.symm⟩⟩

lemma lookupValue_eq {query : Query} {name : List UInt8} (h : Searchable g.authFormat s)
    (hname : IsName name) (hpass : readBytes query.variableName 0 name.length = name) :
    lookupValue g s query = .ok ((found (matchesKey (!query.ignoreRtCheck && g.atRuntime)
      (wantedKey query.vendorGuid name)) (s.contents g.authFormat)).map value) := by
  have hfind : findVariableEx g s query = .ok (findIn g s query (s.visited g.authFormat) none) := by
    rcases @findVariableEx_spec g s query h.last h.named with hok | ⟨-, p, hp, hn⟩
    · exact hok
    · have hlive := (@isLive_iff s g.authFormat p).mp hn.2.1
      have hmem : variableAt s.bytes g.authFormat p ∈ s.contents g.authFormat :=
        List.mem_map_of_mem hp
      have htwo := IsName.two_le (h.names _ hmem hlive).1
      rw [variableAt_name_length, hn.2.2] at htwo
      cases htwo
  have hpic : (findIn g s query (s.visited g.authFormat) none).1 =
      pick ((fun v => isAdded v && query.sees g v) ∘ variableAt s.bytes g.authFormat)
        ((fun v => isInDeleted v && query.sees g v) ∘ variableAt s.bytes g.authFormat)
        (s.visited g.authFormat) := by
    rw [findIn_fst, Option.or_none]
    congr 1
    · funext p
      simp only [Function.comp_apply, Query.wantsAt, isAdded]
      by_cases hsta : state (headerAt s.bytes p) = varAdded
      · have hlive : isLive (headerAt s.bytes p) = true := by
          simp only [isLive, hsta, true_or, decide_true]
        rw [hlive, Bool.true_and]
        rfl
      · simp only [variableAt, hsta, decide_false, Bool.false_and]
    · funext p
      simp only [Function.comp_apply, Query.wantsAt, isInDeleted]
      by_cases hsta : state (headerAt s.bytes p) = varInDeletedAdded
      · have hlive : isLive (headerAt s.bytes p) = true := by
          simp only [isLive, hsta, or_true, decide_true]
        rw [hlive, Bool.true_and]
        rfl
      · simp only [variableAt, hsta, decide_false, Bool.false_and]
  unfold lookupValue
  rw [hfind]
  change Except.ok ((findIn g s query (s.visited g.authFormat) none).1.map _) = _
  congr 1
  rw [hpic, ← found_congr fun v hv hlive => sees_eq hname hpass (h.names v hv hlive).1]
  unfold found Region.contents
  rw [pick_map, Option.map_map]
  rfl

/-! ### The store after a reclaim -/

/-- A reclaim without a new variable, which updates none. -/
def Request.IsPlain (r : Request) : Prop := r.updating = none ∧ r.newVariable = none

lemma map_addedOf (h : r.IsPlain) : (addedOf g s r).map (variableAt s.bytes g.authFormat) =
    (s.contents g.authFormat).filter isAdded := by
  unfold addedOf Region.contents
  rw [List.filter_map]
  congr 2
  funext p
  simp only [Request.keepsAdded, Request.isUpdating, h.1]
  rfl

lemma map_promotedFrom (h : r.IsPlain) :
    (promotedFrom authFlag s r acc l).map (variableAt s.bytes authFlag) =
      firsts keyOf isInDeleted (acc.map keyOf) (l.map (variableAt s.bytes authFlag)) := by
  induction l generalizing acc with
  | nil => rfl
  | cons p l ih =>
    have hkeep : r.keepsInDeleted s p = isInDeleted (variableAt s.bytes authFlag p) := by
      simp only [Request.keepsInDeleted, Request.isUpdating, Request.isUpdatingInDeleted, h.1]
      rfl
    have hnew : (!acc.any fun v => sameKey v (variableAt s.bytes authFlag p)) = true ↔
        keyOf (variableAt s.bytes authFlag p) ∉ acc.map keyOf := by
      simp only [Bool.not_eq_true', List.any_eq_false, List.mem_map, not_exists, not_and, sameKey,
        Bool.and_eq_true, decide_eq_true_eq, keyOf, Prod.mk.injEq]
    unfold promotedFrom
    rw [List.map_cons, firsts]
    by_cases hcond : isInDeleted (variableAt s.bytes authFlag p) = true ∧
        keyOf (variableAt s.bytes authFlag p) ∉ acc.map keyOf
    · rw [if_pos hcond, if_pos (by rw [hkeep, hcond.1, hnew.mpr hcond.2]; rfl), List.map_cons, ih,
        List.map_append]
      rfl
    · grind

lemma map_kept (h : r.IsPlain) : ((addedOf g s r ++ promotedOf g s r).map fun p =>
    asAdded (variableAt s.bytes g.authFormat p)) = compacted (s.contents g.authFormat) := by
  have hpro : (promotedOf g s r).map (variableAt s.bytes g.authFormat) =
      promotedVars (s.contents g.authFormat) := by
    unfold promotedOf promotedVars
    rw [map_promotedFrom h, ← map_addedOf h, List.map_map, List.map_map]
    rfl
  unfold compacted
  rw [← map_addedOf h, ← hpro, ← List.map_append, List.map_map]
  rfl

lemma Chain.move {bytes bytes' : Bytes} {a a' e : ℕ} (h : Chain bytes authFlag a vars e)
    (ha : a % 4 = 0) (ha' : a' % 4 = 0)
    (hsame : ∀ i, a + i < e → bytes' (a' + i) = bytes (a + i)) :
    Chain bytes' authFlag a' vars (a' + (e - a)) := by
  induction vars generalizing a a' with
  | nil =>
    have h : a = e := h
    change a' = a' + (e - a)
    omega
  | cons v vars ih =>
    obtain ⟨hval, hv, hrest⟩ := h
    have hle := hrest.le
    have hnext := lt_nextAt bytes authFlag a
    obtain ⟨hval', hv', hsize⟩ := @variableAt_of_same bytes bytes' authFlag a a'
      fun i hi => hsame i (by omega)
    have hnex' : nextAt bytes' authFlag a' = a' + (nextAt bytes authFlag a - a) :=
      nextAt_of_copied ha ha' hsize
    have hmod : nextAt bytes authFlag a % 4 = 0 := headerAlign_mod _
    have hgo := @ih _ (a' + (nextAt bytes authFlag a - a)) hrest hmod (by omega) (by
      intro i hi
      rw [Nat.add_assoc, hsame _ (by omega)]
      congr 1
      omega)
    refine ⟨hval'.trans hval, hv'.trans hv, ?_⟩
    rw [hnex', show a' + (e - a) = a' + (nextAt bytes authFlag a - a) +
      (e - nextAt bytes authFlag a) by omega]
    exact hgo

lemma WellFormed.inside (h : WellFormed g.authFormat s) : Inside g s := by
  have hsize : ∀ p, 32 ≤ sizeAt s g.authFormat p := fun p =>
    le_trans (le_trans (headerSize_ge _) (Nat.le_add_right _ _)) (sizeAt_ge s g.authFormat p)
  refine ⟨fun p hp => ⟨(h.holdsNamed hp).header, ?_⟩, fun hlt => h.last hlt,
    fun p hp _ => h.holds p hp, ?_, fun p hp _ => h.holds p hp⟩
  · have hsize := hsize p
    exact (h.holds p hp).mono (by omega) (by omega)
  · exact fun p hp _ => (h.holds p hp).mono le_rfl
      (Nat.add_le_add_left (sizeAt_ge s g.authFormat p) p)

/-- The bytes of the store after a successful reclaim: those of the buffer, and behind them erased
ones. -/
lemma replaceStore_bytes {pass : Pass} {updating : Option PtrTrack} (hhdr : HasHeader s)
    (hb : IsBuffer g s r b) (hbui : Built s g.authFormat b.base b.size pass vars)
    (hend : Ended s b pass)
    (h : replaceStore g services s r cache pass updating = .ok res) (hs : res.status = .success) :
    res.store.base = s.base ∧ res.store.size = s.size ∧ ∀ i < s.size, res.store.bytes (s.base + i) =
      if b.base + i < pass.currPtr then pass.buffer.bytes (b.base + i) else 0xff := by
  have hbase := hbui.base_eq
  have hlow := hbui.chain.le
  have hle := hend.le_store
  unfold replaceStore at h
  rw [hhdr.size] at h
  by_cases hpool : r.inPool = true
  · rw [if_pos hpool] at h
    obtain ⟨cleared, hcle, h⟩ := bind_eq_ok.mp h
    obtain ⟨-, rfl⟩ := write_eq_ok.mp hcle
    obtain ⟨-, h⟩ := touch_bind.mp h
    obtain ⟨store, hsto, h⟩ := bind_eq_ok.mp h
    obtain ⟨-, rfl⟩ := write_eq_ok.mp hsto
    cases h
    refine ⟨rfl, rfl, fun i hi => ?_⟩
    simp only [hbase]
    split_ifs with hin
    · apply writeBytes_of_getElem? (Nat.le_add_right _ _)
      rw [Nat.add_sub_cancel_left]
      exact readBytes_getElem? (by omega)
    · rw [writeBytes_of_ge (by rw [length_readBytes]; omega)]
      exact bytes_of_replicate (Nat.le_add_right _ _) (Nat.add_lt_add_left hi _)
  · rw [if_neg hpool] at h
    have hsize : b.size = s.size := hb.cache (by simpa using hpool)
    by_cases hftw : services.ftwVariableSpace.isError = true
    · rw [if_pos hftw] at h
      obtain ⟨⟨offset, totals⟩, -, h⟩ := bind_eq_ok.mp h
      obtain ⟨-, h⟩ := touch_bind.mp h
      obtain ⟨newCache, -, h⟩ := bind_eq_ok.mp h
      cases h
      have hs : services.ftwVariableSpace = .success := hs
      rw [hs] at hftw
      cases hftw
    · rw [if_neg hftw] at h
      obtain ⟨-, h⟩ := touch_bind.mp h
      obtain ⟨store', hsto, h⟩ := bind_eq_ok.mp h
      obtain ⟨-, rfl⟩ := write_eq_ok.mp hsto
      obtain ⟨-, h⟩ := touch_bind.mp h
      obtain ⟨newCache, -, h⟩ := bind_eq_ok.mp h
      cases h
      refine ⟨rfl, rfl, fun i hi => ?_⟩
      have hbyte : writeBytes s.bytes s.base (readBytes pass.buffer.bytes pass.buffer.base s.size)
          (s.base + i) = pass.buffer.bytes (b.base + i) := by
        apply writeBytes_of_getElem? (Nat.le_add_right _ _)
        rw [Nat.add_sub_cancel_left, hbase]
        exact readBytes_getElem? hi
      refine hbyte.trans ?_
      split_ifs with hin
      · rfl
      · exact hbui.erased _ (by omega) (by omega)

lemma store_of_reclaim (hwf : WellFormed g.authFormat s) (hcall : IsCall g services s r cache)
    (hpla : r.IsPlain) (h : reclaim g services s r cache = .ok res)
    (hs : res.status = .success) :
    ∃ b, IsBuffer g s r b ∧ HoldsKept g s r ∧ res.store.base = s.base ∧ res.store.size = s.size ∧
      ∀ i < s.size, res.store.bytes (s.base + i) =
        if b.base + i < (loopsPass g services s r b).currPtr
        then (loopsPass g services s r b).buffer.bytes (b.base + i) else 0xff := by
  have hins := hwf.inside
  have hkept := hins.holdsKept hcall
  have hfits := @neededSize_le g s r hwf.header hins.holdsWalk.headers
  obtain ⟨-, h⟩ := touch_bind.mp h
  obtain ⟨o, hbuf, h⟩ := bind_eq_ok.mp h
  rcases validBuffer_spec hwf.header hcall hins.holdsWalk with ⟨-, hnone⟩ | ⟨b, hsome, hb⟩
  · rw [hnone] at hbuf
    cases hbuf
    cases h
    cases hs
  rw [hsome] at hbuf
  cases hbuf
  obtain ⟨b', hb', h⟩ := bind_eq_ok.mp h
  obtain ⟨-, rfl⟩ := write_eq_ok.mp hb'
  obtain ⟨⟨e₁, pass₁⟩, hfst, h⟩ := bind_eq_ok.mp h
  obtain ⟨⟨e₂, pass₂⟩, hsec, h⟩ := bind_eq_ok.mp h
  obtain ⟨-, -, -, -, rfl⟩ :=
    (loops_eq_ok hwf.header hb hins.holdsWalk).mp ⟨hfst, hsec⟩
  obtain ⟨o, hnew, h⟩ := bind_eq_ok.mp h
  have hbui := @built_loops g services s b r hb
  obtain ⟨hlow, hle⟩ := @loopsPass_currPtr g services s b r hb hkept
  have hnee := hb.needed
  unfold installNew at hnew
  rw [hpla.2] at hnew
  cases hnew
  obtain ⟨hbase, hsize, hbyt⟩ := replaceStore_bytes hwf.header hb hbui
    ⟨hbui.base_eq, hbui.size_eq, by omega, by omega⟩ h hs
  exact ⟨b, hb, hkept, hbase, hsize, hbyt⟩

lemma wellFormed_of_reclaim (hwf : WellFormed g.authFormat s) (hcall : IsCall g services s r cache)
    (hpla : r.IsPlain) (h : reclaim g services s r cache = .ok res)
    (hs : res.status = .success) :
    WellFormed g.authFormat res.store ∧
      res.store.contents g.authFormat = compacted (s.contents g.authFormat) := by
  obtain ⟨b, hb, hkept, hbase, hsize, hbyt⟩ := store_of_reclaim hwf hcall hpla h hs
  have hfits := @neededSize_le g s r hwf.header hwf.inside.holdsWalk.headers
  have hbui := @built_loops g services s b r hb
  obtain ⟨hlow, hle⟩ := @loopsPass_currPtr g services s b r hb hkept
  generalize loopsPass g services s r b = pass at hbyt hbui hlow hle
  have hroom : 28 ≤ s.size := hwf.header.room
  have hbas := hb.aligned
  obtain ⟨hsMod, hsiz⟩ := hwf.aligned
  -- the header is the old one
  have hhdr : ∀ i < 28, res.store.bytes (s.base + i) = s.bytes (s.base + i) := by
    intro i hi
    rw [hbyt i (by omega), if_pos (by omega), hbui.header i hi]
  have hword : ∀ o n, o + n ≤ 28 → word res.store.bytes (s.base + o) n =
      word s.bytes (s.base + o) n := by
    intro o n hon
    apply word_congr
    intro i hi
    rw [Nat.add_assoc]
    exact hhdr _ (by omega)
  have hnew : HasHeader res.store := by
    refine ⟨?_, ?_, ?_⟩
    · rw [← hwf.header.status, hbase]
      unfold getVariableStoreStatus
      rw [hword 16 4 (by decide), hword 20 1 (by decide), hword 21 1 (by decide)]
      have hzero := hword 0 16 (by decide)
      rw [Nat.add_zero] at hzero
      rw [hzero]
    · rw [hbase, hsize, hword 16 4 (by decide), hwf.header.size]
    · rw [hsize]
      exact hroom
  have hsta : res.store.startPtr = s.base + 28 := by
    unfold Region.startPtr getStartPointer headerAlign variableStoreHeaderSize
    omega
  have hend : res.store.endPtr = headerAlign (s.base + s.size) := by
    unfold Region.endPtr getEndPointer
    rw [hbase, hword 16 4 (by decide), hwf.header.size]
  -- behind the variables the store is erased
  have hcha := @Chain.move g.authFormat _ _ res.store.bytes (b.base + 28) (s.base + 28) _ hbui.chain
    (by omega) (by omega) (by
      intro i hi
      rw [Nat.add_assoc, hbyt _ (by omega), if_pos (by omega), Nat.add_assoc])
  have hera : isValidAt res.store.bytes res.store.endPtr
      (s.base + 28 + (pass.currPtr - (b.base + 28))) = false := by
    rw [Bool.eq_false_iff]
    intro hval
    obtain ⟨-, hlt, hid⟩ := isValidAt_iff.mp hval
    rw [hend] at hlt
    have hmod := hbui.mod
    have hin : 28 + (pass.currPtr - (b.base + 28)) < s.size := by
      unfold headerAlign at hlt
      omega
    have hbyte := hbyt _ hin
    rw [if_neg (by omega), ← Nat.add_assoc] at hbyte
    have hid : startId (headerAt res.store.bytes (s.base + 28 + (pass.currPtr - (b.base + 28)))) =
        0x55AA := of_decide_eq_true hid
    have hfst : (headerAt res.store.bytes (s.base + 28 + (pass.currPtr - (b.base + 28)))
        0).toNat = 255 := congrArg _ hbyte
    unfold startId word at hid
    omega
  obtain ⟨l, hl, hmap⟩ := hcha.trace (by omega)
    (show _ ≤ res.store.endPtr by
      rw [hend]
      have := headerAlign_ge (s.base + s.size)
      omega) hera
  rw [← hsta] at hl
  obtain ⟨hvis, hwal⟩ := (res.store.trace g.authFormat).unique hl
  have hcon : res.store.contents g.authFormat = compacted (s.contents g.authFormat) := by
    unfold Region.contents
    rw [hvis, hmap, map_kept hpla]
    rfl
  refine ⟨⟨hnew, by rw [hbase, hsize]; exact ⟨hsMod, hsiz⟩, ?_, ?_⟩, hcon⟩
  · intro p hp
    rw [hvis] at hp
    obtain ⟨hfrom, hto, -⟩ := hl.bounds.2 p hp
    have hnext := lt_nextAt res.store.bytes g.authFormat p
    unfold Region.Holds sizeAt
    rw [hbase, hsize]
    omega
  · rw [hcon]
    intro v hv _
    obtain ⟨u, hu, rfl⟩ := List.mem_map.mp hv
    rcases List.mem_append.mp hu with hu | hu
    · obtain ⟨hu, hadd⟩ := List.mem_filter.mp hu
      exact hwf.names u hu (.inl hadd)
    · obtain ⟨hu, hdel⟩ := List.mem_filter.mp (firsts_sublist.subset hu)
      exact hwf.names u hu (.inr hdel)

/-- Memory that holds a name. -/
def nameMemory (name : List UInt8) : Bytes := fun i => name.getD i 0

lemma readBytes_nameMemory (name : List UInt8) :
    readBytes (nameMemory name) 0 name.length = name := by
  apply List.ext_getElem?
  intro i
  by_cases hi : i < name.length
  · simp [readBytes_getElem? hi, List.getElem?_eq_getElem hi,
      List.getD_eq_getElem?_getD, Option.getD_some, nameMemory]
  · rw [List.getElem?_eq_none (by simpa using hi), List.getElem?_eq_none (by simpa using hi)]

lemma isName_nil : IsName (encode []) := ⟨[], by simp, rfl⟩

/-- All searches in the new store find what they found in the old one exactly if the searches in the
compacted variables do. -/
lemma keepsLookups_iff {s' : Region} (hwf : WellFormed g.authFormat s)
    (hwf' : WellFormed g.authFormat s')
    (hcon : s'.contents g.authFormat = compacted (s.contents g.authFormat)) :
    KeepsLookups g s s' ↔ Unambiguous (s.contents g.authFormat) := by
  have hloo : ∀ atRuntime (query : Query) name, IsName name →
      readBytes query.variableName 0 name.length = name →
        (lookupValue { g with atRuntime := atRuntime } s query =
          lookupValue { g with atRuntime := atRuntime } s' query ↔
            (found (matchesKey (!query.ignoreRtCheck && atRuntime)
              (wantedKey query.vendorGuid name)) (s.contents g.authFormat)).map value =
            (found (matchesKey (!query.ignoreRtCheck && atRuntime)
              (wantedKey query.vendorGuid name)) (compacted (s.contents g.authFormat))).map value) := by
    intro atRuntime query name hname hpass
    rw [@lookupValue_eq { g with atRuntime := atRuntime } s query name hwf.searchable hname hpass,
      @lookupValue_eq { g with atRuntime := atRuntime } s' query name hwf'.searchable hname hpass,
      hcon, Except.ok.injEq]
  have hone : (∀ v ∈ s'.contents g.authFormat, isAdded v = true ∨ isInDeleted v = true →
        isAdded v = true ∧ ((s'.contents g.authFormat).filter fun w =>
          (isAdded w || isInDeleted w) && keyOf w = keyOf v).length = 1) ↔
      ∀ v ∈ compacted (s.contents g.authFormat), ((compacted (s.contents g.authFormat)).filter
        fun w => keyOf w = keyOf v).length = 1 := by
    have hadd : ∀ v ∈ compacted (s.contents g.authFormat), isAdded v = true := by
      intro v hv
      obtain ⟨u, -, rfl⟩ := List.mem_map.mp hv
      rfl
    have hfil : ∀ k, (compacted (s.contents g.authFormat)).filter
        (fun w => (isAdded w || isInDeleted w) && keyOf w = k) =
          (compacted (s.contents g.authFormat)).filter fun w => keyOf w = k := by
      intro k
      apply List.filter_congr
      intro w hw
      rw [hadd w hw, Bool.true_or, Bool.true_and]
    rw [hcon]
    constructor
    · intro h v hv
      rw [← hfil]
      exact (h v hv (.inl (hadd v hv))).2
    · intro h v hv _
      refine ⟨hadd v hv, ?_⟩
      rw [hfil]
      exact h v hv
  rw [unambiguous_iff]
  constructor
  · intro h
    refine ⟨fun rt => ⟨fun v hv hlive => ?_, ?_⟩, hone.mp h.one⟩
    · obtain ⟨hname, hne⟩ := hwf.names v hv hlive
      have heq := (hloo rt ⟨nameMemory v.name, v.guid, false⟩ v.name hname
        (readBytes_nameMemory _)).mp (h.lookups rt _ v.name hname (readBytes_nameMemory _))
      unfold wantedKey at heq
      rwa [if_neg hne] at heq
    · have heq := (hloo rt ⟨nameMemory (encode []), 0, false⟩ _ isName_nil
        (readBytes_nameMemory _)).mp (h.lookups rt _ _ isName_nil (readBytes_nameMemory _))
      unfold wantedKey at heq
      rwa [if_pos rfl] at heq
  · rintro ⟨hfnd, hcop⟩
    refine ⟨fun atRuntime query name hname hpass => ?_, hone.mpr hcop⟩
    rw [hloo atRuntime query name hname hpass]
    have hu : Unambiguous (s.contents g.authFormat) := unambiguous_iff.mpr ⟨hfnd, hcop⟩
    unfold wantedKey
    split_ifs
    · exact (hfnd _).2
    · exact found_key_of_unambiguous hu

theorem reclaim_keepsLookups_iff (g : Global) (services : Services) (s cache : Region) (r : Request)
    (res : Reclaimed) (hwf : WellFormed g.authFormat s) (hcall : IsCall g services s r cache)
    (hplain : r.IsPlain) (h : reclaim g services s r cache = .ok res)
    (hs : res.status = .success) :
    KeepsLookups g s res.store ↔ Unambiguous (s.contents g.authFormat) := by
  obtain ⟨hwf', hcontents⟩ := wellFormed_of_reclaim hwf hcall hplain h hs
  exact keepsLookups_iff hwf hwf' hcontents

/-! ### A store with two copies of a name -/

lemma replaceStore_success {pass : Pass} {updating : Option PtrTrack} (hfla : r.inPool = false)
    (hftw : services.ftwVariableSpace = .success)
    (h : replaceStore g services s r cache pass updating = .ok res) : res.status = .success := by
  unfold replaceStore at h
  rw [if_neg (by rw [hfla]; exact Bool.false_ne_true), hftw,
    if_neg (show ¬ EfiStatus.success.isError = true by decide)] at h
  obtain ⟨-, h⟩ := touch_bind.mp h
  obtain ⟨store, -, h⟩ := bind_eq_ok.mp h
  obtain ⟨-, h⟩ := touch_bind.mp h
  obtain ⟨newCache, -, h⟩ := bind_eq_ok.mp h
  cases h
  rfl

lemma success_of_flash (hwf : WellFormed g.authFormat s) (hcall : IsCall g services s r cache)
    (hpla : r.IsPlain) (hfla : r.inPool = false) (hftw : services.ftwVariableSpace = .success) :
    ∃ res, reclaim g services s r cache = .ok res ∧ res.status = .success := by
  obtain ⟨res, hres⟩ := hwf.inside.reclaim hwf.header hcall
  refine ⟨res, hres, ?_⟩
  obtain ⟨-, h⟩ := touch_bind.mp hres
  obtain ⟨o, hbuf, h⟩ := bind_eq_ok.mp h
  rcases validBuffer_spec hwf.header hcall hwf.inside.holdsWalk with ⟨hpool, -⟩ | ⟨b, hsome, -⟩
  · rw [hfla] at hpool
    cases hpool
  rw [hsome] at hbuf
  cases hbuf
  obtain ⟨b', -, h⟩ := bind_eq_ok.mp h
  obtain ⟨⟨e₁, pass₁⟩, -, h⟩ := bind_eq_ok.mp h
  obtain ⟨⟨e₂, pass₂⟩, -, h⟩ := bind_eq_ok.mp h
  obtain ⟨o, hnew, h⟩ := bind_eq_ok.mp h
  unfold installNew at hnew
  rw [hpla.2] at hnew
  cases hnew
  exact replaceStore_success hfla hftw h

/-- A variable `A` in deleted transition with one word of data. -/
def oldCopyBytes (data : UInt8) : List UInt8 :=
  [0xaa, 0x55, 0x3e, 0, 7, 0, 0, 0, 4, 0, 0, 0, 4, 0, 0, 0,
    1, 2, 3, 4, 5, 6, 7, 8, 9, 10, 11, 12, 13, 14, 15, 16, 65, 0, 0, 0, data, 0, 0, 0]

/-- A store of 112 bytes with two copies of the variable. -/
def twoCopies (data₁ data₂ : UInt8) : Region :=
  ⟨fun a => ([0x16, 0x36, 0xcf, 0xdd, 0x75, 0x32, 0x64, 0x41, 0x98, 0xb6, 0xfe, 0x85, 0x70, 0x7f,
      0xfe, 0x7d, 112, 0, 0, 0, 0x5a, 0xfe, 0, 0, 0, 0, 0, 0] ++ oldCopyBytes data₁ ++
        oldCopyBytes data₂).getD a 0xff, 0, 112⟩

/-- The variable as it is stored. -/
def oldCopy (data : UInt8) : StoredVariable :=
  ⟨varInDeletedAdded, 7, 0x100f0e0d0c0b0a090807060504030201, [65, 0, 0, 0], [data, 0, 0, 0]⟩

def plainRequest : Request := ⟨false, false, none, none⟩

lemma visited_twoCopies : (twoCopies 1 1).visited false = [28, 68] ∧
    (twoCopies 1 2).visited false = [28, 68] := by decide

lemma contents_twoCopies : (twoCopies 1 1).contents false = [oldCopy 1, oldCopy 1] ∧
    (twoCopies 1 2).contents false = [oldCopy 1, oldCopy 2] := by decide

lemma isName_oldCopy (data : UInt8) : IsName (oldCopy data).name :=
  ⟨[(65, 0)], List.forall_mem_singleton.mpr (by decide), rfl⟩

lemma oldCopy_ne_nil (data : UInt8) : (oldCopy data).name ≠ encode [] := by
  change [65, 0, 0, 0] ≠ encode []
  decide

lemma wellFormed_twoCopies {data : UInt8} (hhdr : HasHeader (twoCopies 1 data))
    (hvis : (twoCopies 1 data).visited false = [28, 68])
    (hcon : (twoCopies 1 data).contents false = [oldCopy 1, oldCopy data])
    (hsize : sizeAt (twoCopies 1 data) false 28 = 40 ∧ sizeAt (twoCopies 1 data) false 68 = 40) :
    WellFormed false (twoCopies 1 data) where
  header := hhdr
  aligned := by
    change 0 % 4 = 0 ∧ 112 % 4 = 0
    decide
  holds := by
    intro p hp
    rw [hvis, List.mem_pair] at hp
    rcases hp with rfl | rfl
    · rw [hsize.1]
      change 0 ≤ 28 ∧ 28 + 40 ≤ 0 + 112
      decide
    · rw [hsize.2]
      change 0 ≤ 68 ∧ 68 + 40 ≤ 0 + 112
      decide
  names := by
    intro v hv _
    rw [hcon, List.mem_pair] at hv
    rcases hv with rfl | rfl
    · exact ⟨isName_oldCopy 1, oldCopy_ne_nil 1⟩
    · exact ⟨isName_oldCopy data, oldCopy_ne_nil data⟩

lemma isCall_plain (hhdr : HasHeader s) : IsCall g plainServices s plainRequest (cacheOf s) where
  pool := nofun
  aligned := rfl
  cacheSize := rfl
  cacheHeader := (@isCall_update g s hhdr none none nofun).cacheHeader
  tracked := nofun
  newSize := nofun

lemma wellFormed_sameCopies : WellFormed false (twoCopies 1 1) :=
  wellFormed_twoCopies ⟨by decide, by decide, by decide⟩ visited_twoCopies.1 contents_twoCopies.1
    ⟨by decide, by decide⟩

lemma wellFormed_otherCopies : WellFormed false (twoCopies 1 2) :=
  wellFormed_twoCopies ⟨by decide, by decide, by decide⟩ visited_twoCopies.2 contents_twoCopies.2
    ⟨by decide, by decide⟩

lemma unambiguous_sameCopies : Unambiguous [oldCopy 1, oldCopy 1] := by
  have hall : ∀ v ∈ [oldCopy 1, oldCopy 1], v = oldCopy 1 := by decide
  have hfil : ∀ (test : StoredVariable → Bool) first last,
      ([oldCopy 1, oldCopy 1].filter test).head? = some first →
        ([oldCopy 1, oldCopy 1].filter test).getLast? = some last → value first = value last := by
    intro test first last hfst hlast
    rw [hall first (List.filter_sublist.subset (List.mem_of_head? hfst)),
      hall last (List.filter_sublist.subset (List.mem_of_getLast? hlast))]
  refine ⟨fun k => ?_, fun k w hw hrun => ?_, fun k first last _ => hfil _ first last,
    fun rt first last _ => hfil _ first last⟩
  · unfold copies
    rw [List.filter_eq_nil_iff.mpr]
    · decide
    · intro v hv
      rw [hall v hv]
      simp [isAdded, oldCopy, varAdded, varInDeletedAdded]
  · grind [pick_eq_or, found, List.mem_of_find?_eq_some, List.filter_sublist.subset]

lemma not_unambiguous_oldCopies : ¬ Unambiguous [oldCopy 1, oldCopy 2] := by
  intro h
  have hsame := h.same (keyOf (oldCopy 1)) (oldCopy 1) (oldCopy 2) (by decide) (by decide)
    (by decide)
  exact absurd hsame (by decide)

lemma reclaim_twoCopies (h : WellFormed false s) :
    ∃ res, reclaim plainGlobal plainServices s plainRequest (cacheOf s) = .ok res ∧
      res.status = .success :=
  @success_of_flash plainGlobal plainServices s (cacheOf s) plainRequest h (isCall_plain h.header)
    ⟨rfl, rfl⟩ rfl rfl

/-- Two equal copies. -/
theorem reclaim_keepsLookups_sameCopies :
    ∃ res, reclaim plainGlobal plainServices (twoCopies 1 1) plainRequest
      (cacheOf (twoCopies 1 1)) = .ok res ∧ KeepsLookups plainGlobal (twoCopies 1 1) res.store := by
  obtain ⟨res, hres, hs⟩ := reclaim_twoCopies wellFormed_sameCopies
  refine ⟨res, hres, ?_⟩
  rw [reclaim_keepsLookups_iff plainGlobal plainServices (twoCopies 1 1)
    (cacheOf (twoCopies 1 1)) plainRequest res wellFormed_sameCopies
    (isCall_plain wellFormed_sameCopies.header) ⟨rfl, rfl⟩ hres hs]
  rw [show (twoCopies 1 1).contents plainGlobal.authFormat = _ from contents_twoCopies.1]
  exact unambiguous_sameCopies

theorem not_keepsLookups_otherCopies :
    ¬ ∀ g services s r cache res, WellFormed g.authFormat s → IsCall g services s r cache →
      r.IsPlain → reclaim g services s r cache = .ok res → res.status = .success →
        KeepsLookups g s res.store := by
  intro h
  obtain ⟨res, hres, hs⟩ := reclaim_twoCopies wellFormed_otherCopies
  have hcall : IsCall plainGlobal plainServices (twoCopies 1 2) plainRequest
      (cacheOf (twoCopies 1 2)) := isCall_plain wellFormed_otherCopies.header
  obtain ⟨hwf, hcontents⟩ :=
    wellFormed_of_reclaim wellFormed_otherCopies hcall ⟨rfl, rfl⟩ hres hs
  have hu := (keepsLookups_iff wellFormed_otherCopies hwf hcontents).mp
    (h plainGlobal plainServices (twoCopies 1 2) plainRequest (cacheOf (twoCopies 1 2)) res wellFormed_otherCopies hcall ⟨rfl, rfl⟩ hres
      hs)
  rw [show (twoCopies 1 2).contents plainGlobal.authFormat = _ from contents_twoCopies.2] at hu
  exact not_unambiguous_oldCopies hu

lemma compacted_of_added (h : ∀ v ∈ vars, isAdded v = true) : compacted vars = vars := by
  have hdel : vars.filter isInDeleted = [] := by
    refine List.filter_eq_nil_iff.mpr fun v hv hdel => ?_
    have hadd := (of_decide_eq_true (h v hv)).symm.trans (of_decide_eq_true hdel)
    exact absurd hadd (by decide)
  have hpro : promotedVars vars = [] := List.sublist_nil.mp (hdel ▸ firsts_sublist)
  rw [compacted, hpro, List.append_nil, List.filter_eq_self.mpr h]
  refine (List.map_congr_left fun v hv => ?_).trans (List.map_id vars)
  unfold asAdded
  rw [← of_decide_eq_true (h v hv)]
  rfl

/-- Another reclaim finds nothing to do: it leaves the variables that the first one has left. -/
theorem reclaim_again {services' : Services} {cache' : Region} {r' : Request} {res' : Reclaimed}
    (hwf : WellFormed g.authFormat s) (hcall : IsCall g services s r cache) (hplain : r.IsPlain)
    (h : reclaim g services s r cache = .ok res) (hs : res.status = .success)
    (hcall' : IsCall g services' res.store r' cache') (hplain' : r'.IsPlain)
    (h' : reclaim g services' res.store r' cache' = .ok res') (hs' : res'.status = .success) :
    res'.store.contents g.authFormat = res.store.contents g.authFormat := by
  obtain ⟨hwf', hcon⟩ := wellFormed_of_reclaim hwf hcall hplain h hs
  rw [(wellFormed_of_reclaim hwf' hcall' hplain' h' hs').2, hcon]
  refine compacted_of_added fun v hv => ?_
  obtain ⟨u, -, rfl⟩ := List.mem_map.mp hv
  rfl

theorem reclaim_again_sameCopies : ∃ res res',
    reclaim plainGlobal plainServices (twoCopies 1 1) plainRequest (cacheOf (twoCopies 1 1)) =
        .ok res ∧
      reclaim plainGlobal plainServices res.store plainRequest (cacheOf res.store) = .ok res' ∧
      res'.store.contents false = res.store.contents false := by
  have hcall := @isCall_plain plainGlobal _ wellFormed_sameCopies.header
  obtain ⟨res, hres, hs⟩ := reclaim_twoCopies wellFormed_sameCopies
  obtain ⟨hwf, -⟩ :=
    @wellFormed_of_reclaim plainGlobal _ _ _ _ _ wellFormed_sameCopies hcall ⟨rfl, rfl⟩ hres hs
  obtain ⟨res', hres', hs'⟩ := reclaim_twoCopies hwf
  exact ⟨res, res', hres, hres', @reclaim_again plainGlobal _ _ _ _ _ _ _ _ _ wellFormed_sameCopies
    hcall ⟨rfl, rfl⟩ hres hs (isCall_plain hwf.header) ⟨rfl, rfl⟩ hres' hs'⟩

end Edk2.VariableDxe
