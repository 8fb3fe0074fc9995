import Edk2.Gcd.Run

/-!
# Requests that leave the address space

The end of a range is computed modulo `2 ^ 64`. A request that leaves the address space without
wrapping is rejected. One that wraps is rejected too, unless its base and its wrapped end lie in
one entry that passes the check of the operation: that one is accepted, and splits the entry at
an end that lies below the base.
-/

namespace Edk2.Gcd

open Segment

/-- The range wraps around `2 ^ 64` and ends in the entry that contains its base; `check` is the
verification of that entry. -/
def WrapsInEntry (check : GcdMapEntry → EfiStatus) (b n : ℕ) (map : List GcdMapEntry) : Prop :=
  2 ^ 64 < b + n ∧
    ∃ e ∈ map, Contains e b ∧ Contains e (b + n - 1 - 2 ^ 64) ∧ ¬ (check e).isError

/-- The calls whose range wraps and that are carried out all the same. -/
def WrapAccepted (env : Environment) (s : GcdState) : GcdCall → Prop
  | .convert o r =>
    WrapsInEntry (convertCheckEntry o r) r.baseAddress r.length (s.map o) ∧
      env.padsAvailable ∧ ¬ (programCpu env o r).isError
  | .allocate o r =>
    if r.gcdAllocateType = .address then
      ¬ (allocateParameters r).isError ∧ r.baseAddress.getD 0 % 2 ^ r.alignment = 0 ∧
        WrapsInEntry (coreAllocateSpaceCheckEntry o r) (r.baseAddress.getD 0) r.length
          (s.map o) ∧ env.padsAvailable
    else ∃ b, allocateBase o r (s.map o) = .ok (some b) ∧ 2 ^ 64 < b + r.length

/-- The call returns an error and leaves both maps as they were. -/
def Rejected (env : Environment) (s : GcdState) (call : GcdCall) : Prop :=
  ∃ status : EfiStatus, call.run env s = .ok (status, s) ∧ status.isError

variable {b n t m j : ℕ} {map : List GcdMapEntry}
  {env : Environment} {o : GcdOperation} {s s' : GcdState}

lemma rangeEnd_wrapped (hb : b < 2 ^ 64) (hn : n < 2 ^ 64) (hw : 2 ^ 64 < b + n) :
    rangeEnd b n = b + n - 1 - 2 ^ 64 := by
  refine u64_of_ge ?_ ?_ <;> omega

lemma search_outside (h : Tiles 0 map t) (hn : 0 < n) (hout : t < b + n)
    (hw : b + n ≤ 2 ^ 64) : coreSearchGcdMapEntry b n map = none := by
  have hend : rangeEnd b n = b + n - 1 := u64_of_lt (by omega)
  rcases coreSearchGcdMapEntry_spec h b n with ⟨hnone, -⟩ | ⟨pre, mid, post, hcov, -⟩
  · exact hnone
  · obtain ⟨f, hf⟩ := Option.isSome_iff_exists.mp (List.getLast?_isSome.mpr hcov.ne_nil)
    have hbou := h.bounds f (by
      rw [hcov.split]
      simp [List.mem_of_getLast? hf])
    have hlast := hcov.last f hf
    grind [contains_iff, hi_entry]

lemma search_wrapped (h : Tiles 0 map t) (hb : b < 2 ^ 64) (hn : n < 2 ^ 64)
    (hw : 2 ^ 64 < b + n) :
    (coreSearchGcdMapEntry b n map = none ∧
      ∀ e ∈ map, Contains e b → ¬ Contains e (b + n - 1 - 2 ^ 64)) ∨
    ∃ pre e post, map = pre ++ [e] ++ post ∧ Contains e b ∧ Contains e (b + n - 1 - 2 ^ 64) ∧
      coreSearchGcdMapEntry b n map = some (pre.length, pre.length) := by
  have hend := rangeEnd_wrapped hb hn hw
  rcases coreSearchGcdMapEntry_spec h b n with ⟨hnone, hfai⟩ | ⟨pre, mid, post, hcov, hsome⟩
  · refine .inl ⟨hnone, fun e he hcb hcl => ?_⟩
    have hbou := h.bounds e he
    rcases hfai with htb | ⟨f, hf, hfb, hfl⟩
    · simp only [contains_iff, hi_entry] at hcb hbou
      omega
    · obtain rfl := h.contains_unique he hf hcb hfb
      grind [contains_iff, hi_entry]
  · obtain ⟨rfl, hne, hfst, hlast⟩ := hcov
    obtain ⟨e, l, rfl⟩ := List.exists_cons_of_ne_nil hne
    have hcb := hfst e (by simp)
    -- a later entry lies above the base, but the wrapped end lies below it
    rcases List.eq_nil_or_concat l with rfl | ⟨l, f, rfl⟩
    · grind
    · have hcl := hlast f (by
        rw [List.concat_eq_append, ← List.cons_append, List.getLast?_append]
        simp)
      have hsor : e.endAddress < f.baseAddress := by
        have hp := h.pairwise
        rw [List.append_assoc, List.pairwise_append] at hp
        exact (List.pairwise_cons.mp hp.2.1).1 f (by simp)
      simp only [contains_iff, hend] at hcb hcl
      omega

lemma convert_rejected_of_map {r : ConvertRequest} (status : EfiStatus)
    (h : coreConvertMap env o r (s.map o) = .ok (status, s.map o)) (hs : status.isError) :
    Rejected env s (.convert o r) :=
  ⟨status, by simp [GcdCall.run, coreConvertSpace, h, Except.bind], hs⟩

lemma convert_rejected_iff {r : ConvertRequest} (hok : StateOk m j s)
    (hb : r.baseAddress < 2 ^ 64) (hn : r.length < 2 ^ 64)
    (hout : 2 ^ o.bits m j < r.baseAddress + r.length) :
    Rejected env s (.convert o r) ↔ ¬ WrapAccepted env s (.convert o r) := by
  obtain ⟨hwf, -⟩ := hok.map_ok o
  by_cases hlen : r.length = 0
  · refine iff_of_true (convert_rejected_of_map .invalidParameter ?_ rfl) ?_
    · simp [coreConvertMap, hlen]
    · rintro ⟨⟨hw, -⟩, -⟩
      omega
  rcases Nat.lt_or_ge (2 ^ 64) (r.baseAddress + r.length) with hw | hw
  swap
  · refine iff_of_true (convert_rejected_of_map .unsupported ?_ rfl) ?_
    · simp [coreConvertMap, hlen, search_outside hwf.tiles (by omega) hout hw]
    · rintro ⟨⟨hw', -⟩, -⟩
      omega
  rcases search_wrapped hwf.tiles hb hn hw with ⟨hs, hno⟩ | ⟨pre, e, post, hmap, hcb, hcl, hs⟩
  · refine iff_of_true (convert_rejected_of_map .unsupported ?_ rfl) ?_
    · simp [coreConvertMap, hlen, hs]
    · rintro ⟨⟨-, e, he, hcb, hcl, -⟩, -⟩
      exact hno e he hcb hcl
  have hsli : slice (s.map o) pre.length pre.length = (pre, [e], post) := by
    have := slice_append pre [e] post (by simp)
    rwa [hmap]
  have hche : checkEntries (convertCheckEntry o r) [e] =
      if (convertCheckEntry o r e).isError then convertCheckEntry o r e else .success := rfl
  have hiff : WrapAccepted env s (.convert o r) ↔ ¬ (convertCheckEntry o r e).isError ∧
      env.padsAvailable ∧ ¬ (programCpu env o r).isError := by
    refine and_congr_left fun _ => ⟨?_, fun hc => ⟨hw, e, by simp [hmap], hcb, hcl, hc⟩⟩
    rintro ⟨-, f, hf, hfb, -, hfc⟩
    rwa [hwf.tiles.contains_unique (by simp [hmap] : e ∈ s.map o) hf hcb hfb]
  rw [hiff]
  by_cases hce : (convertCheckEntry o r e).isError
  · refine iff_of_true (convert_rejected_of_map (convertCheckEntry o r e) ?_ hce) ?_
    · simp [coreConvertMap, hlen, hs, hsli, hche, hce]
    · exact fun h => h.1 hce
  have hsucc : ¬ EfiStatus.success.isError := by decide
  by_cases hpads : env.padsAvailable = true
  swap
  · refine iff_of_true (convert_rejected_of_map .outOfResources ?_ rfl) ?_
    · simp [coreConvertMap, hlen, hs, hsli, hche, hce, hpads, hsucc]
    · exact fun h => hpads h.2.1
  by_cases hcpu : (programCpu env o r).isError
  · refine iff_of_true (convert_rejected_of_map (programCpu env o r) ?_ hcpu) ?_
    · simp [coreConvertMap, hlen, hs, hsli, hche, hce, hpads, hsucc, hcpu]
    · exact fun h => h.2.2 hcpu
  refine iff_of_false ?_ (fun h => h ⟨hce, hpads, hcpu⟩)
  rintro ⟨status, hrun, hst⟩
  simp only [GcdCall.run, coreConvertSpace, coreConvertMap, hlen, hs, hsli, hche, hce, hpads,
    hsucc, hcpu, if_false, not_true, Bool.false_eq_true] at hrun
  generalize rewriteRange _ _ _ _ _ _ _ = res at hrun
  cases res with
  | error _ => cases hrun
  | ok map' =>
    grind [Except.bind, Except.ok.injEq, Prod.mk.injEq]

lemma allocate_rejected_of_map {r : AllocateRequest} {result : AllocateResult}
    (h : coreAllocateMap env o r (s.map o) = .ok result) (hmap : result.map = s.map o)
    (hs : result.status.isError) : Rejected env s (.allocate o r) :=
  ⟨result.status, by simp [GcdCall.run, coreAllocateSpace, h, hmap, Except.bind], hs⟩

lemma allocate_rejected_iff {r : AllocateRequest} (hok : StateOk m j s)
    (htype : r.gcdAllocateType = .address) (hbase : r.baseAddress = some b)
    (hb : b < 2 ^ 64) (hn : r.length < 2 ^ 64) (hout : 2 ^ o.bits m j < b + r.length) :
    Rejected env s (.allocate o r) ↔ ¬ WrapAccepted env s (.allocate o r) := by
  obtain ⟨hwf, -⟩ := hok.map_ok o
  have hwrap : WrapAccepted env s (.allocate o r) ↔ ¬ (allocateParameters r).isError ∧
      b % 2 ^ r.alignment = 0 ∧
      WrapsInEntry (coreAllocateSpaceCheckEntry o r) b r.length (s.map o) ∧
      env.padsAvailable := by
    simp only [WrapAccepted, htype, if_true, hbase, Option.getD_some]
  rw [hwrap]
  by_cases hp : (allocateParameters r).isError
  · refine iff_of_true (allocate_rejected_of_map (by rw [coreAllocateMap, if_pos hp]) rfl hp) ?_
    exact fun h => h.1 hp
  obtain ⟨-, hlen⟩ := allocateParameters_ok hp
  -- the call on its map, once its arguments are accepted
  have herr : ∀ status, allocateAddress o r (s.map o) b = .error status →
      coreAllocateMap env o r (s.map o) =
        .ok { status := status, baseAddress := some b, map := s.map o } := by
    intro status h
    rw [coreAllocateMap, if_neg hp]
    simp only [hbase, Option.getD_some, htype, if_true, h]
  have hrun : ∀ i k, allocateAddress o r (s.map o) b = .ok (i, k) →
      coreAllocateMap env o r (s.map o) = allocateRange env r (s.map o) b i k := by
    intro i k h
    rw [coreAllocateMap, if_neg hp]
    simp only [hbase, Option.getD_some, htype, if_true, h]
  by_cases hal : b % 2 ^ r.alignment = 0
  swap
  · have haddr : allocateAddress o r (s.map o) b = .error .notFound := by
      simp [allocateAddress, hal]
    exact iff_of_true (allocate_rejected_of_map (herr _ haddr) rfl rfl) fun h => hal h.2.1
  rcases Nat.lt_or_ge (2 ^ 64) (b + r.length) with hw | hw
  swap
  · have haddr : allocateAddress o r (s.map o) b = .error .notFound := by
      simp [allocateAddress, hal, search_outside hwf.tiles hlen hout hw]
    refine iff_of_true (allocate_rejected_of_map (herr _ haddr) rfl rfl) ?_
    rintro ⟨-, -, ⟨hw', -⟩, -⟩
    omega
  rcases search_wrapped hwf.tiles hb hn hw with ⟨hs, hno⟩ | ⟨pre, e, post, hmap, hcb, hcl, hs⟩
  · have haddr : allocateAddress o r (s.map o) b = .error .notFound := by
      simp [allocateAddress, hal, hs]
    refine iff_of_true (allocate_rejected_of_map (herr _ haddr) rfl rfl) ?_
    rintro ⟨-, -, ⟨-, e, he, hcb, hcl, -⟩, -⟩
    exact hno e he hcb hcl
  have hsli : slice (s.map o) pre.length pre.length = (pre, [e], post) := by
    have := slice_append pre [e] post (by simp)
    rwa [hmap]
  have hche : checkEntries (coreAllocateSpaceCheckEntry o r) [e] =
      if (coreAllocateSpaceCheckEntry o r e).isError then coreAllocateSpaceCheckEntry o r e
      else .success := rfl
  have hin : WrapsInEntry (coreAllocateSpaceCheckEntry o r) b r.length (s.map o) ↔
      ¬ (coreAllocateSpaceCheckEntry o r e).isError := by
    refine ⟨?_, fun hc => ⟨hw, e, by simp [hmap], hcb, hcl, hc⟩⟩
    rintro ⟨-, f, hf, hfb, -, hfc⟩
    rwa [hwf.tiles.contains_unique (by simp [hmap] : e ∈ s.map o) hf hcb hfb]
  rw [hin]
  by_cases hce : (coreAllocateSpaceCheckEntry o r e).isError
  · have haddr : allocateAddress o r (s.map o) b = .error (coreAllocateSpaceCheckEntry o r e) := by
      simp [allocateAddress, hal, hs, hsli, hche, hce]
    exact iff_of_true (allocate_rejected_of_map (herr _ haddr) rfl hce) fun h => h.2.2.1 hce
  have hsucc : ¬ EfiStatus.success.isError := by decide
  have haddr : allocateAddress o r (s.map o) b = .ok (pre.length, pre.length) := by
    simp [allocateAddress, hal, hs, hsli, hche, hce, hsucc]
  have hcall := hrun _ _ haddr
  by_cases hpads : env.padsAvailable = true
  swap
  · have hran : allocateRange env r (s.map o) b pre.length pre.length =
        .ok { status := .outOfResources, baseAddress := some b, map := s.map o } := by
      simp [allocateRange, hpads]
    exact iff_of_true (allocate_rejected_of_map (hcall.trans hran) rfl rfl) fun h => hpads h.2.2.2
  refine iff_of_false ?_ (fun h => h ⟨hp, hal, hce, hpads⟩)
  rintro ⟨status, hrej, hst⟩
  simp only [GcdCall.run, coreAllocateSpace, hcall, allocateRange, hpads, not_true, if_false]
    at hrej
  generalize rewriteRange _ _ _ _ _ _ _ = res at hrej
  cases res with
  | error _ => cases hrej
  | ok map' =>
    grind [Except.bind, Except.ok.injEq, Prod.mk.injEq]

/-- The address and the length of the call are `UINT64` values. -/
def GcdCall.WellTyped : GcdCall → Prop
  | .convert _ r => r.baseAddress < 2 ^ 64 ∧ r.length < 2 ^ 64
  | .allocate _ r => (∀ b ∈ r.baseAddress, b < 2 ^ 64) ∧ r.length < 2 ^ 64

/-- The states of the runs none of whose steps is an accepted wrapped call. -/
inductive ReachableUnwrapped (sizeOfMemorySpace sizeOfIoSpace : ℕ) : GcdState → Prop
  | init {s : GcdState} : coreInitializeGcdServices sizeOfMemorySpace sizeOfIoSpace = .ok s →
      ReachableUnwrapped sizeOfMemorySpace sizeOfIoSpace s
  | step {s s' : GcdState} {env : Environment} {call : GcdCall} {status : EfiStatus} :
      ReachableUnwrapped sizeOfMemorySpace sizeOfIoSpace s → call.WellTyped →
      ¬ WrapAccepted env s call → call.run env s = .ok (status, s') →
      ReachableUnwrapped sizeOfMemorySpace sizeOfIoSpace s'

lemma rejected_of_wrapped {call : GcdCall} (hok : StateOk m j s) (htyp : call.WellTyped)
    (hacc : ¬ WrapAccepted env s call) (hout : ¬ call.InRange s) : Rejected env s call := by
  obtain ⟨-, hbits⟩ := hok.map_ok call.operation
  have hsize : 2 ^ call.operation.bits m j ≤ 2 ^ 64 := Nat.pow_le_pow_right (by decide) hbits.le
  simp only [GcdCall.InRange, not_forall, not_le] at hout
  obtain ⟨b, hbase, hw⟩ := hout
  cases call with
  | convert o r =>
    cases hbase
    exact (convert_rejected_iff hok htyp.1 htyp.2 (lt_of_le_of_lt hsize hw)).mpr hacc
  | allocate o r =>
    by_cases htype : r.gcdAllocateType = .address
    · have hb : r.baseAddress = some b := by
        grind [GcdCall.base, allocateBase, Except.ok.inj]
      exact (allocate_rejected_iff hok htype hb (htyp.1 b hb) htyp.2
        (lt_of_le_of_lt hsize hw)).mpr hacc
    · refine absurd ?_ hacc
      rw [WrapAccepted, if_neg htype]
      exact ⟨b, hbase, hw⟩

lemma ReachableUnwrapped.stateOk (h : ReachableUnwrapped m j s) : StateOk m j s := by
  induction h with
  | init hinit => exact Reachable.stateOk (.init hinit)
  | @step s s' env call status _ htyp hacc hrun ih =>
    by_cases hr : call.InRange s
    · obtain ⟨status, s', hrun', hok, -⟩ := run_step env ih call hr
      rw [hrun] at hrun'
      cases hrun'
      exact hok
    · obtain ⟨status, hrun', -⟩ := rejected_of_wrapped ih htyp hacc hr
      rw [hrun] at hrun'
      cases hrun'
      exact ih

/-- In every state of a run without accepted wrapped calls, a call for a range that is not
contained in the address space is rejected exactly if it is not an accepted wrapped call. -/
theorem out_of_space_rejected_iff (h : ReachableUnwrapped m j s) :
    (∀ env o (r : ConvertRequest), r.baseAddress < 2 ^ 64 → r.length < 2 ^ 64 →
      2 ^ o.bits m j < r.baseAddress + r.length →
      (Rejected env s (.convert o r) ↔ ¬ WrapAccepted env s (.convert o r))) ∧
    ∀ env o (r : AllocateRequest) b, r.gcdAllocateType = .address → r.baseAddress = some b →
      b < 2 ^ 64 → r.length < 2 ^ 64 → 2 ^ o.bits m j < b + r.length →
      (Rejected env s (.allocate o r) ↔ ¬ WrapAccepted env s (.allocate o r)) :=
  ⟨fun _ _ _ hb hn hout => convert_rejected_iff h.stateOk hb hn hout,
    fun _ _ _ _ htype hbase hb hn hout =>
      allocate_rejected_iff h.stateOk htype hbase hb hn hout⟩

lemma reachableUnwrapped_afterAdd : ReachableUnwrapped 48 16 afterAdd := by
  have hinit : ReachableUnwrapped 48 16
      { mGcdMemorySpaceMap := [initialEntry 48], mGcdIoSpaceMap := [initialEntry 16] } :=
    .init rfl
  have hrun : (GcdCall.convert .addMemory addedPage).run {}
      { mGcdMemorySpaceMap := [initialEntry 48], mGcdIoSpaceMap := [initialEntry 16] } =
        .ok (.success, afterAdd) := by
    decide
  refine hinit.step (by exact ⟨by decide, by decide⟩) ?_ hrun
  rintro ⟨⟨hw, -⟩, -⟩
  exact absurd hw (by decide)

/-- A range that starts above the 48-bit space is rejected. -/
theorem out_of_space_rejected_above :
    Rejected {} afterAdd (.convert .addMemory { addedPage with baseAddress := 2 ^ 48 }) := by
  refine ((out_of_space_rejected_iff reachableUnwrapped_afterAdd).1 {} .addMemory
    { addedPage with baseAddress := 2 ^ 48 } (by decide) (by decide) (by decide)).mpr ?_
  rintro ⟨⟨hw, -⟩, -⟩
  exact absurd hw (by decide)

/-- From the initial map of a 48-bit space, adding `2^64 - 0x1000` bytes at `0x2000` succeeds: the
wrapped end `0xFFF` lies in the only entry. -/
theorem wrapped_add_accepted :
    ∃ s s' : GcdState, Reachable 48 16 s ∧ s' ≠ s ∧
      (GcdCall.convert .addMemory
        { gcdMemoryType := .systemMemory, baseAddress := 0x2000, length := 2 ^ 64 - 0x1000 }).run
          {} s = .ok (.success, s') ∧
      s'.mGcdMemorySpaceMap.map (fun e => (e.baseAddress, e.endAddress)) =
        [(0, 0x1FFF), (0x2000, 0xFFF), (0x1000, 2 ^ 48 - 1)] := by
  refine ⟨{ mGcdMemorySpaceMap := [initialEntry 48], mGcdIoSpaceMap := [initialEntry 16] },
    { mGcdMemorySpaceMap :=
        [ { initialEntry 48 with endAddress := 0x1FFF },
          { initialEntry 48 with
            baseAddress := 0x2000, endAddress := 0xFFF, gcdMemoryType := .systemMemory
            capabilities := efiMemoryRuntime },
          { initialEntry 48 with baseAddress := 0x1000 } ],
      mGcdIoSpaceMap := [initialEntry 16] }, .init rfl, by decide, by decide, ?_⟩
  decide

end Edk2.Gcd
