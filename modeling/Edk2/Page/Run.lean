import Edk2.Page.Services

/-!
# Runs of the page services

Between two calls the memory lock is free, the stack is empty and every descriptor lives in a
page. Each release of the lock on the way exposes a map that is sorted, in whole pages, without
overlap, merged as far as possible, and that describes exactly the memory added so far.
-/

namespace Edk2.Page

open Outcome Segment
open Edk2.Gcd
open Edk2.Pool (MemoryType efiConventionalMemory efiBootServicesData efiMaxMemoryType
  memoryTypeOemReservedMin)

variable {cfg : Config} {start stop : ℕ} {type : MemoryType} {attr : BitVec 64}
  {s s' : State} {numberOfPages : ℕ} {f : Failure}

/-- What the release of the memory lock may expose. -/
structure Sound (r : Release) : Prop where
  sorted : r.map.Pairwise fun e e' => e.start < e'.start
  disjoint : r.map.Pairwise fun e e' => e.stop < e'.start ∨ e'.stop < e.start
  aligned : ∀ e ∈ r.map, e.start % efiPageSize = 0 ∧ (e.stop + 1) % efiPageSize = 0
  nonempty : ∀ e ∈ r.map, e.start < e.stop
  union : ∀ a, (∃ e ∈ r.map, e.start ≤ a ∧ a ≤ e.stop) ↔ ∃ p ∈ r.added, p.1 ≤ a ∧ a ≤ p.2
  merged : ∀ e ∈ r.map, ∀ e' ∈ r.map, e.stop + 1 = e'.start → ¬ (e.type = e'.type ∧ e.attr = e'.attr)

lemma MapOk.fromPages {map : List MemoryMap} {S : Set ℕ} (h : MapOk map 0 S) :
    map.filter MemoryMap.fromPages = map := by
  refine List.filter_eq_self.mpr fun e he => ?_
  rw [MemoryMap.fromPages, Option.isNone_iff_eq_none, Option.eq_none_iff_forall_not_mem]
  intro i hi
  exact absurd (h.slots e he i hi) (Nat.not_lt_zero i)

lemma Inv.sound (h : Inv cfg s) (hdep : s.mMapDepth = 0) : Sound ⟨s.gMemoryMap, s.added⟩ := by
  have hmap := h.map
  rw [hdep] at hmap
  refine ⟨?_, hmap.covers.apart, ?_, ?_, ?_, ?_⟩
  · have hsor := hmap.sorted
    rwa [hmap.fromPages] at hsor
  · intro e he
    exact ⟨(hmap.pages e he).start_mod, (hmap.pages e he).stop_mod⟩
  · intro e he
    exact (hmap.pages e he).lt
  · intro a
    exact (hmap.covers.mem_iff a).symm
  · rintro e he e' he' htou ⟨htype, hattr⟩
    apply hmap.separated e he e' he' htou
    rw [label_memoryMap, label_memoryMap, htype, hattr]

/-- The state between two calls. -/
structure Ready (cfg : Config) (s : State) : Prop where
  inv : Inv cfg s
  mFreeMapStack : s.mFreeMapStack = 0
  depth : s.mMapDepth = 0
  sound : ∀ r ∈ s.released, Sound r

/-- How a call can stop. -/
structure Aborts (f : Failure) (s : State) : Prop where
  sound : ∀ r ∈ s.released, Sound r
  failure : f = .assert ∨ (f = .overflow ∧ Crowded s.promotions)

lemma Ready.abort (h : Ready cfg s) (hh : Halts s f s') : Aborts f s' :=
  ⟨hh.released ▸ h.sound, hh.failure⟩

lemma Ready.assert (h : Ready cfg s) : Aborts .assert s := ⟨h.sound, .inl rfl⟩

lemma locked_spec {α : Type} {body : PageM α} (h : Ready cfg s)
    (hbody : ∀ t, Ready cfg t → t.mGcdMemorySpaceMap = s.mGcdMemorySpaceMap → Added t = Added s →
      Ends (body t) (fun _ t' => Inv cfg t' ∧ Outer t t' ∧ t'.mMapDepth = 0) (Halts t)) :
    Ends (locked body s) (fun _ s' => Ready cfg s') Aborts := by
  refine ends_bind (ends_bind (ends_get (ends_bind (ends_assertThat (fun _ => ?_) h.assert))))
  refine ends_modify (ends_bind ?_)
  have h₁ : Ready cfg { s with gMemoryLock := true } :=
    ⟨⟨h.inv.map, h.inv.depth_lt, h.inv.untested⟩, h.mFreeMapStack, h.depth, h.sound⟩
  refine (hbody _ h₁ rfl rfl).mono (fun a s₂ hq => ?_) fun f s₂ hh => h₁.abort hh
  obtain ⟨h₂, hout, hdep⟩ := hq
  have hsou : ∀ r ∈ s₂.released, Sound r := by
    rw [hout.released]
    exact h.sound
  refine ends_bind (ends_bind (ends_get (ends_bind (ends_assertThat (fun _ => ?_)
    ⟨hsou, .inl rfl⟩))))
  refine ends_modify (ends_pure ⟨⟨h₂.map, h₂.depth_lt, h₂.untested⟩,
    hout.mFreeMapStack.trans h.mFreeMapStack, hdep, fun r hr => ?_⟩)
  rcases List.mem_cons.mp hr with rfl | hr
  · exact h₂.sound hdep
  · exact hsou r hr

lemma locked_quiet {α : Type} {body : PageM α} (h : Ready cfg s)
    (hbody : ∀ t, Inv cfg t → t.mFreeMapStack = 0 → t.mMapDepth = 0 →
      Ends (body t) (fun _ t' => Quiet cfg t t') (Halts t)) :
    Ends (locked body s) (fun _ s' => Ready cfg s') Aborts :=
  locked_spec h fun t ht _ _ => (hbody t ht.inv ht.mFreeMapStack ht.depth).imp
    fun _ _ hq => ⟨hq.inv, hq.frame.outer, hq.depth⟩

lemma coreAllocatePages_spec {how : AllocateType} {memory : Option ℕ} (h : Ready cfg s) :
    Ends (coreAllocatePages cfg how type numberOfPages memory s) (fun _ s' => Ready cfg s')
      Aborts := by
  refine ends_ite (fun _ => ends_pure h) fun _ => ends_ite (fun _ => ends_pure h) fun _ => ?_
  cases memory with
  | none => exact ends_pure h
  | some start =>
    refine ends_ite (fun _ => ends_pure h) fun _ => ends_ite (fun _ => ends_pure h) fun _ => ?_
    refine ends_bind ((locked_quiet h fun t ht hs hdep => ?_).imp fun r s' hr => ends_pure hr)
    refine ends_ite (fun _ => ?_) fun _ => ?_
    · exact ends_bind ((convertEx_spec ht hs hdep).imp fun _ t' hq => ends_pure hq)
    · refine ends_bind ((find_spec ht hs hdep).imp fun found t₁ hq => ?_)
      refine ends_ite (fun _ => ends_pure hq) fun _ => ?_
      exact ends_bind ((convertEx_spec hq.inv (hq.frame.mFreeMapStack.trans hs) hq.depth).mono
        (fun _ t₂ hq₂ => ends_pure (hq.trans hq₂)) fun f t₂ hh => hh.trans hq.frame)

lemma coreFreePages_spec {memory : ℕ} (h : Ready cfg s) :
    Ends (coreFreePages cfg memory numberOfPages s) (fun _ s' => Ready cfg s') Aborts := by
  refine locked_quiet h fun t ht hs hdep => ends_bind (ends_get ?_)
  cases findCover memory t.gMemoryMap with
  | none => exact ends_pure (Quiet.refl ht hdep)
  | some found =>
    obtain ⟨before, entry, after⟩ := found
    exact ends_ite (fun _ => ends_pure (Quiet.refl ht hdep)) fun _ => convertEx_spec ht hs hdep

lemma coreUpdateMemoryAttributes_spec (h : Ready cfg s) :
    Ends (coreUpdateMemoryAttributes cfg start numberOfPages attr s) (fun _ s' => Ready cfg s')
      Aborts :=
  ends_bind ((locked_quiet h fun _ ht hs hdep => convertEx_spec ht hs hdep).imp
    fun _ _ hr => ends_pure hr)

lemma coreAllocatePoolPagesI_spec {granularity : ℕ} (h : Ready cfg s) :
    Ends (coreAllocatePoolPagesI cfg type numberOfPages granularity s) (fun _ s' => Ready cfg s')
      Aborts :=
  ends_bind (ends_get (ends_ite (fun _ => ends_pure h) fun _ =>
    locked_quiet h fun _ ht hs hdep => allocatePoolPages_spec ht hs hdep))

lemma coreFreePoolPagesI_spec {memory : ℕ} (h : Ready cfg s) :
    Ends (coreFreePoolPagesI cfg memory numberOfPages s) (fun _ s' => Ready cfg s') Aborts :=
  locked_quiet h fun _ ht hs hdep =>
    ends_bind ((convertEx_spec ht hs hdep).imp fun _ _ hq => ends_pure hq)

/-- What readiness depends on. -/
structure SameMap (s s' : State) : Prop where
  gMemoryMap : s'.gMemoryMap = s.gMemoryMap
  mMapDepth : s'.mMapDepth = s.mMapDepth
  mFreeMapStack : s'.mFreeMapStack = s.mFreeMapStack
  mGcdMemorySpaceMap : s'.mGcdMemorySpaceMap = s.mGcdMemorySpaceMap
  added : s'.added = s.added
  released : s'.released = s.released

lemma Ready.congr (h : Ready cfg s) (hs : SameMap s s') : Ready cfg s' := by
  have hadd : Added s' = Added s := by simp only [Added, hs.added]
  refine ⟨⟨?_, ?_, ?_⟩, hs.mFreeMapStack.trans h.mFreeMapStack, hs.mMapDepth.trans h.depth, ?_⟩
  · rw [hs.gMemoryMap, hs.mMapDepth, hadd]
    exact h.inv.map
  · rw [hs.mMapDepth]
    exact h.inv.depth_lt
  · rw [hs.mGcdMemorySpaceMap, hadd]
    exact h.inv.untested
  · rw [hs.released]
    exact h.sound

lemma sameMap_resetBin : SameMap s (resetBin cfg type s) := ⟨rfl, rfl, rfl, rfl, rfl, rfl⟩

lemma sameMap_openBin {index : ℕ} : SameMap s (openBin index type s) :=
  ⟨rfl, rfl, rfl, rfl, rfl, rfl⟩

lemma sameMap_placeBin {base : ℕ} : SameMap s (placeBin type numberOfPages base s) := by
  unfold placeBin
  simp only
  split_ifs <;> exact ⟨rfl, rfl, rfl, rfl, rfl, rfl⟩

lemma sameMap_settleStatistics : SameMap s (settleStatistics cfg s) := ⟨rfl, rfl, rfl, rfl, rfl, rfl⟩

lemma freeBins_spec {settle : ℕ → MemoryType → State → State} {count index : ℕ}
    (hset : ∀ i t u, SameMap u (settle i t u)) (h : Ready cfg s) :
    Ends (freeBins cfg settle count index s) (fun _ s' => Ready cfg s') Aborts := by
  induction count generalizing s index with
  | zero => exact ends_pure h
  | succ count ih =>
    refine ends_bind (ends_get ?_)
    cases s.information index with
    | none => exact ends_pure h
    | some information =>
      refine ends_bind (ends_ite (fun _ => ends_pure (ih h)) fun _ => ?_)
      refine ends_bind (ends_get (ends_bind ((coreFreePages_spec h).imp fun _ s₁ h₁ => ?_)))
      exact ends_modify (ih (h₁.congr (hset index information.type s₁)))

lemma allocateBins_spec {count index : ℕ} (h : Ready cfg s) :
    Ends (allocateBins cfg count index s) (fun _ s' => Ready cfg s') Aborts := by
  induction count generalizing s index with
  | zero => exact ends_pure h
  | succ count ih =>
    refine ends_bind (ends_get ?_)
    cases s.information index with
    | none => exact ends_pure h
    | some information =>
      refine ends_ite (fun _ => ih h) fun _ => ends_bind ((coreAllocatePages_spec h).imp ?_)
      rintro ⟨status, base⟩ s₁ h₁
      refine ends_ite (fun _ => ?_) fun _ => ?_
      · exact ends_bind ((freeBins_spec (fun _ _ _ => sameMap_resetBin) h₁).imp
          fun _ _ h₂ => ends_pure h₂)
      · exact ends_bind (ends_modify (ih (h₁.congr sameMap_placeBin)))

lemma initializeBins_spec (h : Ready cfg s) :
    Ends (initializeBins cfg s) (fun _ s' => Ready cfg s') Aborts := by
  refine ends_bind (ends_get (ends_ite (fun _ => ends_pure h) fun _ => ?_))
  refine ends_bind ((allocateBins_spec h).imp fun allocated s₁ h₁ => ?_)
  refine ends_ite (fun _ => ?_) fun _ => ends_pure h₁
  refine ends_bind ((freeBins_spec (fun _ _ _ => sameMap_openBin) h₁).imp fun _ s₂ h₂ => ?_)
  exact ends_modify (h₂.congr sameMap_settleStatistics)

/-- The range that `CoreAddMemoryDescriptor` is to add is not empty, ends below the top of the
address space and is neither in the map nor waiting for promotion. -/
structure Addable (cfg : Config) (s : State) (start stop : ℕ) : Prop where
  lt : start < stop
  stop_lt : stop + 1 < 2 ^ 64
  out : ∀ a ∈ Added s, ¬ (start ≤ a ∧ a ≤ stop)
  tested : ∀ g ∈ s.mGcdMemorySpaceMap, untested cfg g = true →
    g.endAddress < start ∨ stop < g.baseAddress

lemma UntestedOk.add {gcdMap : List GcdMapEntry} {S : Set ℕ} (h : UntestedOk cfg gcdMap S)
    (hout : ∀ g ∈ gcdMap, untested cfg g = true → g.endAddress < start ∨ stop < g.baseAddress) :
    UntestedOk cfg gcdMap (S ∪ range start stop) := by
  refine ⟨h.pages, fun g hg hu a ha => ?_, h.apart⟩
  rcases ha with ha | ha
  · exact h.out g hg hu a ha
  · have := hout g hg hu
    simp only [mem_range] at ha
    omega

lemma coreAddMemoryDescriptor_spec (h : Ready cfg s)
    (hadd : Addable cfg s start (endOfPages start numberOfPages)) :
    Ends (coreAddMemoryDescriptor cfg type start numberOfPages attr s) (fun _ s' => Ready cfg s')
      Aborts := by
  refine ends_ite (fun _ => ends_pure h) fun hsta => ends_ite (fun _ => ends_pure h) fun _ => ?_
  have hpag : IsPages start (endOfPages start numberOfPages) :=
    ⟨not_not.mp hsta, endOfPages_mod start numberOfPages (not_not.mp hsta), hadd.lt, hadd.stop_lt⟩
  have hsize : maxMapDepth = 6 := rfl
  refine ends_bind ((locked_spec h fun t ht hgcd hadde => ?_).imp fun _ s' h' =>
    initializeBins_spec h')
  have hout : ∀ a ∈ Added t, ¬ (start ≤ a ∧ a ≤ endOfPages start numberOfPages) := by
    rw [hadde]
    exact hadd.out
  have htes := hadd.tested
  rw [← hgcd] at htes
  refine ends_bind ((addNewRange_spec ht.inv.map hpag hout).mono (fun _ t₁ hw => ?_)
    fun f t₁ hst => hst.halts (.inl (by rw [ht.depth]; decide)))
  obtain ⟨hmap, hadd₁, -, hdep, hlt, hkee⟩ := hw
  have h₁ : Inv cfg t₁ := by
    refine ⟨hmap, hlt, ?_⟩
    rw [hadd₁, hkee.mGcdMemorySpaceMap]
    exact ht.inv.untested.add htes
  have houte : Outer t t₁ := ⟨hkee.mFreeMapStack, hkee.gMemoryLock,
    hkee.mGcdMemorySpaceLock, hkee.released, hkee.promotions ▸ List.suffix_rfl⟩
  have hroom : Room t₁ := .inl (by have := ht.depth; omega)
  exact (coreFreeMemoryMapStack_spec h₁ (hkee.mFreeMapStack.trans ht.mFreeMapStack) hroom).mono
    (fun _ t₂ hq => ⟨hq.inv, houte.trans hq.frame.outer, hq.depth⟩)
    fun f t₂ hh => houte.halts hh

/-! ### Runs -/

/-- A call of a page service. -/
inductive Call
  | addMemoryDescriptor (type : MemoryType) (start numberOfPages : ℕ) (attr : BitVec 64)
  | allocatePages (how : AllocateType) (memoryType : MemoryType) (numberOfPages : ℕ)
      (memory : Option ℕ)
  | freePages (memory numberOfPages : ℕ)
  | updateMemoryAttributes (start numberOfPages : ℕ) (newAttributes : BitVec 64)
  | allocatePoolPages (poolType : MemoryType) (noPages granularity : ℕ)
  | freePoolPages (memory noPages : ℕ)
deriving DecidableEq, Repr

def Call.perform (cfg : Config) : Call → PageM Unit
  | .addMemoryDescriptor type start numberOfPages attr =>
    coreAddMemoryDescriptor cfg type start numberOfPages attr
  | .allocatePages how memoryType numberOfPages memory =>
    discard (coreAllocatePages cfg how memoryType numberOfPages memory)
  | .freePages memory numberOfPages => discard (coreFreePages cfg memory numberOfPages)
  | .updateMemoryAttributes start numberOfPages newAttributes =>
    coreUpdateMemoryAttributes cfg start numberOfPages newAttributes
  | .allocatePoolPages poolType noPages granularity =>
    discard (coreAllocatePoolPagesI cfg poolType noPages granularity)
  | .freePoolPages memory noPages => coreFreePoolPagesI cfg memory noPages

/-- Memory may be added only where there is none. -/
def Call.Allowed (cfg : Config) (s : State) : Call → Prop
  | .addMemoryDescriptor _ start numberOfPages _ =>
    Addable cfg s start (endOfPages start numberOfPages)
  | _ => True

lemma ends_discard {α : Type} {m : PageM α} {P : State → Prop} {E : Failure → State → Prop}
    (h : Ends (m s) (fun _ s' => P s') E) : Ends (discard m s) (fun _ s' => P s') E := by
  refine ends_bind (h.imp fun _ _ hp => ends_pure hp)

lemma Call.perform_spec {call : Call} (h : Ready cfg s) (hcall : call.Allowed cfg s) :
    Ends (call.perform cfg s) (fun _ s' => Ready cfg s') Aborts := by
  cases call with
  | addMemoryDescriptor type start numberOfPages attr => exact coreAddMemoryDescriptor_spec h hcall
  | allocatePages how memoryType numberOfPages memory => exact ends_discard (coreAllocatePages_spec h)
  | freePages memory numberOfPages => exact ends_discard (coreFreePages_spec h)
  | updateMemoryAttributes start numberOfPages newAttributes =>
    exact coreUpdateMemoryAttributes_spec h
  | allocatePoolPages poolType noPages granularity =>
    exact ends_discard (coreAllocatePoolPagesI_spec h)
  | freePoolPages memory noPages => exact coreFreePoolPagesI_spec h

/-- The states between the calls of a run. The GCD services may change the GCD map at any time, as
long as its untested ranges are whole pages that are not in the memory map. -/
inductive Reachable (cfg : Config) (information : List TypeInformation) : State → Prop
  | init {gcdMap : List GcdMapEntry} (h : UntestedOk cfg gcdMap ∅) :
    Reachable cfg information (initialState cfg information gcdMap)
  | call {s s' : State} (call : Call) (h : Reachable cfg information s)
    (hcall : call.Allowed cfg s) (hrun : call.perform cfg s = .ok () s') :
    Reachable cfg information s'
  | gcd {s : State} {gcdMap : List GcdMapEntry} (h : Reachable cfg information s)
    (hgcd : UntestedOk cfg gcdMap (Added s)) :
    Reachable cfg information { s with mGcdMemorySpaceMap := gcdMap }

lemma added_initialState (information : List TypeInformation) (gcdMap : List GcdMapEntry) :
    Added (initialState cfg information gcdMap) = ∅ := by
  ext a
  simp [Added, initialState]

lemma ready_initialState {information : List TypeInformation} {gcdMap : List GcdMapEntry}
    (h : UntestedOk cfg gcdMap ∅) : Ready cfg (initialState cfg information gcdMap) := by
  refine ⟨⟨?_, Nat.succ_pos 5, ?_⟩, rfl, rfl, ?_⟩
  · rw [added_initialState]
    exact ⟨covers_nil, separated_nil, by simp [initialState], .nil, by simp [initialState], .nil⟩
  · rw [added_initialState]
    exact h
  · simp [initialState]

lemma Reachable.ready {information : List TypeInformation} (h : Reachable cfg information s) :
    Ready cfg s := by
  induction h with
  | init h => exact ready_initialState h
  | call call h hcall hrun ih => exact (Call.perform_spec ih hcall).of_ok hrun
  | gcd h hgcd ih =>
    exact ⟨⟨ih.inv.map, ih.inv.depth_lt, hgcd⟩, ih.mFreeMapStack, ih.depth, ih.sound⟩

lemma Reachable.forM {information : List TypeInformation} {calls : List Call}
    (h : Reachable cfg information s) (hcal : ∀ call ∈ calls, ∀ t, call.Allowed cfg t)
    (hrun : calls.forM (Call.perform cfg) s = .ok () s') : Reachable cfg information s' := by
  induction calls generalizing s with
  | nil =>
    cases hrun
    exact h
  | cons call calls ih =>
    change EStateM.bind (call.perform cfg) (fun _ => calls.forM (Call.perform cfg)) s = _ at hrun
    unfold EStateM.bind at hrun
    rcases hcall : call.perform cfg s with ⟨_, t⟩ | ⟨_, t⟩
    · rw [hcall] at hrun
      exact ih (h.call call (hcal call List.mem_cons_self s) hcall)
        (fun c hc => hcal c (List.mem_cons_of_mem call hc)) hrun
    · rw [hcall] at hrun
      cases hrun

/-- Whenever the memory lock is released in a run, the map is sound. -/
theorem releases_sound (information : List TypeInformation) (s : State) (call : Call)
    (h : Reachable cfg information s) (hcall : call.Allowed cfg s) :
    ∀ r ∈ (Outcome.state (call.perform cfg s)).released, Sound r :=
  (Call.perform_spec h.ready hcall).state (fun _ _ hr => hr.sound) fun _ _ ha => ha.sound

def sampleConfig : Config where
  runtimePageAllocationGranularity := 0x1000
  valid := .inl rfl
  maxAllocAddress := 0xFFFFFFFFFFFF
  gDxeCoreImageHandle := 1
  max_valid := .inr rfl

/-- A range of initialized but untested memory. -/
def untestedEntry (baseAddress endAddress : ℕ) : GcdMapEntry :=
  { initialEntry 48 with
    baseAddress := baseAddress, endAddress := endAddress, gcdMemoryType := .reserved
    capabilities := efiMemoryPresent ||| efiMemoryInitialized }

lemma untestedOk_nil (S : Set ℕ) : UntestedOk cfg [] S := ⟨by simp, by simp, .nil⟩

/-- The first memory is added; a page of it is taken for descriptors. -/
theorem releases_sound_first :
    Addable sampleConfig (initialState sampleConfig [] []) 0x100000 (endOfPages 0x100000 16) ∧
      ∀ r ∈ (Outcome.state ((Call.addMemoryDescriptor efiConventionalMemory 0x100000 16 0).perform
        sampleConfig (initialState sampleConfig [] []))).released, Sound r := by
  have hadd : Addable sampleConfig (initialState sampleConfig [] []) 0x100000
      (endOfPages 0x100000 16) := by
    refine ⟨by decide, by decide, ?_, by simp [initialState]⟩
    rw [added_initialState]
    simp
  exact ⟨hadd, releases_sound [] _ _ (.init (untestedOk_nil ∅)) hadd⟩

/-- An untested range that does not end at the end of a page. -/
def unalignedState : State := initialState sampleConfig [] [untestedEntry 0x100000 0x1017FF]

/-- The promotion of such a range leaves a descriptor that is not in whole pages. -/
theorem release_not_sound :
    ∃ r ∈ (Outcome.state ((Call.allocatePages .anyPages efiBootServicesData 1 (some 0)).perform
      sampleConfig unalignedState)).released, ¬ Sound r := by
  have hrun : (Outcome.state ((Call.allocatePages .anyPages efiBootServicesData 1 (some 0)).perform
      sampleConfig unalignedState)).released =
        [{ map := [ { slot := none, type := 4, start := 0x100000, stop := 0x100FFF, attr := 0 },
              { slot := none, type := 7, start := 0x101000, stop := 0x1017FF, attr := 0 } ]
           added := [(0x100000, 0x1017FF)] }] := by
    decide +kernel
  rw [hrun]
  refine ⟨_, List.mem_singleton_self _, fun hsound => ?_⟩
  have hlast := (hsound.aligned _ (List.mem_cons_of_mem _ List.mem_cons_self)).2
  revert hlast
  decide

/-- Four untested ranges. -/
def crowdedMap : List GcdMapEntry :=
  [ untestedEntry 0x1000000 0x1000FFF, untestedEntry 0x2000000 0x2000FFF,
    untestedEntry 0x3000000 0x3000FFF, untestedEntry 0x4000000 0x4000FFF ]

lemma untestedOk_crowdedMap : UntestedOk sampleConfig crowdedMap ∅ := by
  refine ⟨?_, by simp, ?_⟩
  · intro g hg _
    simp only [crowdedMap, List.mem_cons, List.not_mem_nil, or_false] at hg
    rcases hg with rfl | rfl | rfl | rfl <;> exact ⟨by decide, by decide, by decide, by decide⟩
  · simp [crowdedMap, untestedEntry]

/-- The state with 66 pages of conventional memory. -/
def filledState : State :=
  Outcome.state ((Call.addMemoryDescriptor efiConventionalMemory 0x100000 66 0).perform
    sampleConfig (initialState sampleConfig [] crowdedMap))

/-- Allocate it all, such that every descriptor of the first page is in use. -/
def allocateAll : List Call :=
  (List.range 63).map fun i =>
    .allocatePages .address (if i % 2 = 0 then 3 else 4) (if i = 62 then 3 else 1)
      (some (0x100000 + i * 0x1000))

def exhaustedState : State := Outcome.state (allocateAll.forM (Call.perform sampleConfig) filledState)

def Returns {α : Type} : EStateM.Result Failure State α → Bool
  | .ok _ _ => true
  | .error _ _ => false

lemma Returns.eq_ok {r : EStateM.Result Failure State Unit} (h : Returns r = true) :
    r = .ok () (Outcome.state r) := by
  cases r with
  | ok a s => rfl
  | error e s => cases h

lemma addable_crowdedMap :
    Addable sampleConfig (initialState sampleConfig [] crowdedMap) 0x100000
      (endOfPages 0x100000 66) := by
  refine ⟨by decide, by decide, ?_, ?_⟩
  · rw [added_initialState]
    simp
  · intro g hg _
    simp only [initialState, crowdedMap, List.mem_cons, List.not_mem_nil, or_false] at hg
    rcases hg with rfl | rfl | rfl | rfl <;> decide

lemma reachable_filledState : Reachable sampleConfig [] filledState := by
  have hadd : Returns ((Call.addMemoryDescriptor efiConventionalMemory 0x100000 66 0).perform
      sampleConfig (initialState sampleConfig [] crowdedMap)) = true := by
    decide
  exact (Reachable.init untestedOk_crowdedMap).call
    (.addMemoryDescriptor efiConventionalMemory 0x100000 66 0) addable_crowdedMap
    (Returns.eq_ok hadd)

def Overflows {α : Type} : EStateM.Result Failure State α → Bool
  | .error .overflow _ => true
  | _ => false

lemma filledState_runs : Returns (allocateAll.forM (Call.perform sampleConfig) filledState) = true ∧
    Overflows ((Call.updateMemoryAttributes 0x13F000 1 efiMemoryUc).perform sampleConfig
      exhaustedState) = true := by
  decide +kernel

lemma reachable_exhaustedState : Reachable sampleConfig [] exhaustedState := by
  refine reachable_filledState.forM (fun call hcall t => ?_) (Returns.eq_ok filledState_runs.1)
  obtain ⟨i, -, rfl⟩ := List.mem_map.mp hcall
  trivial

end Edk2.Page
