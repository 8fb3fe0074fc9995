import Edk2.Page.Convert

/-!
# Draining the descriptor stack

`CoreFreeMemoryMapStack` moves the slots of the stack to descriptors in pages. While it runs,
draining is suspended: a page for more descriptors is allocated by a conversion that leaves its
slots on the stack, and a promotion leaves one slot for each range. The stack is only in danger
when a promotion finds too many untested ranges for the slots that are left.
-/

namespace Edk2.Page

open Outcome Segment
open Edk2.Gcd
open Edk2.Pool (MemoryType efiConventionalMemory efiBootServicesData)

variable {cfg : Config} {map before after : List MemoryMap} {depth start stop rangeEnd : ℕ}
  {S : Set ℕ} {type : MemoryType} {attr : BitVec 64} {e : MemoryMap} {s s' s'' : State}
  {change : Change} {n numberOfPages fuel : ℕ} {f : Failure}

/-- The memory that was ever added. -/
def Added (s : State) : Set ℕ := {a | ∃ r ∈ s.added, r.1 ≤ a ∧ a ≤ r.2}

/-- Untested GCD ranges consist of whole pages that have not been added. -/
structure UntestedOk (cfg : Config) (gcdMap : List GcdMapEntry) (S : Set ℕ) : Prop where
  pages : ∀ g ∈ gcdMap, untested cfg g = true → IsPages g.baseAddress g.endAddress
  out : ∀ g ∈ gcdMap, untested cfg g = true → ∀ a ∈ S, ¬ (g.baseAddress ≤ a ∧ a ≤ g.endAddress)
  apart : gcdMap.Pairwise fun g g' => untested cfg g = true → untested cfg g' = true →
    g.endAddress < g'.baseAddress ∨ g'.endAddress < g.baseAddress

/-- What holds of the state whenever no primitive change of the map is under way. -/
structure Inv (cfg : Config) (s : State) : Prop where
  map : MapOk s.gMemoryMap s.mMapDepth (Added s)
  depth_lt : s.mMapDepth < maxMapDepth
  untested : UntestedOk cfg s.mGcdMemorySpaceMap (Added s)

/-- A promotion was made for which the free slots and the two of a conversion were not enough. -/
def Crowded (promotions : List Promotion) : Prop :=
  ∃ p ∈ promotions, maxMapDepth ≤ p.mMapDepth + p.untested + 2

/-- There is room for a conversion, or a promotion has used it up. -/
def Room (s : State) : Prop := s.mMapDepth + 2 < maxMapDepth ∨ Crowded s.promotions

/-- What an operation under the memory lock leaves alone. -/
structure Frame (s s' : State) : Prop where
  mFreeMapStack : s'.mFreeMapStack = s.mFreeMapStack
  gMemoryLock : s'.gMemoryLock = s.gMemoryLock
  mGcdMemorySpaceLock : s'.mGcdMemorySpaceLock = s.mGcdMemorySpaceLock
  released : s'.released = s.released
  promotions : s.promotions <:+ s'.promotions
  gcdMap : s.mGcdMemorySpaceLock = true → s'.mGcdMemorySpaceMap = s.mGcdMemorySpaceMap

lemma Frame.refl (s : State) : Frame s s :=
  ⟨rfl, rfl, rfl, rfl, List.suffix_rfl, fun _ => rfl⟩

lemma Frame.trans (h : Frame s s') (h' : Frame s' s'') : Frame s s'' where
  mFreeMapStack := h'.mFreeMapStack.trans h.mFreeMapStack
  gMemoryLock := h'.gMemoryLock.trans h.gMemoryLock
  mGcdMemorySpaceLock := h'.mGcdMemorySpaceLock.trans h.mGcdMemorySpaceLock
  released := h'.released.trans h.released
  promotions := h.promotions.trans h'.promotions
  gcdMap hl := (h'.gcdMap (h.mGcdMemorySpaceLock.trans hl)).trans (h.gcdMap hl)

lemma Keeps.frame (h : Keeps s s') : Frame s s' where
  mFreeMapStack := h.mFreeMapStack
  gMemoryLock := h.gMemoryLock
  mGcdMemorySpaceLock := h.mGcdMemorySpaceLock
  released := h.released
  promotions := h.promotions ▸ List.suffix_rfl
  gcdMap _ := h.mGcdMemorySpaceMap

/-- How an operation under the memory lock can stop. -/
structure Halts (s : State) (f : Failure) (s' : State) : Prop where
  released : s'.released = s.released
  failure : f = .assert ∨ (f = .overflow ∧ Crowded s'.promotions)

lemma Halts.trans (h : Frame s s') (h' : Halts s' f s'') : Halts s f s'' :=
  ⟨h'.released.trans h.released, h'.failure⟩

lemma Halts.assert (h : Frame s s') : Halts s .assert s' := ⟨h.released, .inl rfl⟩

lemma Stops.halts (h : Stops s n f s') (hroom : s.mMapDepth + n < maxMapDepth ∨
    Crowded s.promotions) : Halts s f s' := by
  refine ⟨h.released, h.failure.imp_right fun ⟨hf, hle⟩ => ⟨hf, ?_⟩⟩
  rw [h.promotions]
  exact hroom.resolve_left (not_lt.mpr hle)

lemma Keeps.added_eq (h : Keeps s s') : Added s' = Added s := by
  simp only [Added, h.added]

lemma Worked.inv (h : Worked s (Added s) n s') (hu : UntestedOk cfg s.mGcdMemorySpaceMap (Added s)) :
    Inv cfg s' := by
  refine ⟨?_, h.depth_lt, ?_⟩
  · rw [h.keeps.added_eq]
    exact h.map
  · rw [h.keeps.added_eq, h.keeps.mGcdMemorySpaceMap]
    exact hu

/-- What an allocation comes to that is made while draining is suspended. -/
structure Searched (cfg : Config) (s s' : State) : Prop where
  inv : Inv cfg s'
  frame : Frame s s'
  freeEntries : s.freeEntries ≤ s'.freeEntries
  depth : s.mMapDepth ≤ s'.mMapDepth

lemma Searched.trans (h : Searched cfg s s') (h' : Searched cfg s' s'') : Searched cfg s s'' :=
  ⟨h'.inv, h.frame.trans h'.frame, h.freeEntries.trans h'.freeEntries, h.depth.trans h'.depth⟩

lemma endOfPages_mod (start numberOfPages : ℕ) (hsta : start % efiPageSize = 0) :
    (endOfPages start numberOfPages + 1) % efiPageSize = 0 := by
  simp only [endOfPages, u64, efiPageSize] at *
  omega

lemma suspendedDrain_spec (hs : s.mFreeMapStack ≠ 0) :
    Ends (suspendedDrain s) (fun _ s' => s' = s) (fun f s' => f = .assert ∧ s' = s) := by
  refine ends_bind (ends_assertLocked (fun _ => ?_) ⟨rfl, rfl⟩)
  exact ends_bind (ends_get (ends_ite (fun _ => ends_pure rfl) fun h => absurd hs h))

lemma ends_coreConvertPagesEx {drain : PageM Unit} {Q : EfiStatus → State → Prop}
    {E : Failure → State → Prop} (hass : E .assert s)
    (h : ∀ stop, start % efiPageSize = 0 → (stop + 1) % efiPageSize = 0 → start < stop →
      Ends (convertLoop drain change numberOfPages stop (stop - start) start s) Q E) :
    Ends (coreConvertPagesEx drain start numberOfPages change s) Q E := by
  have hmod := endOfPages_mod start numberOfPages
  unfold coreConvertPagesEx
  generalize endOfPages start numberOfPages = stop at hmod ⊢
  refine ends_bind (ends_assertThat (fun _ => ?_) hass)
  refine ends_bind (ends_assertThat (fun hsta => ?_) hass)
  refine ends_bind (ends_assertThat (fun hlt => ?_) hass)
  refine ends_bind (ends_assertLocked (fun _ => ?_) hass)
  exact h stop hsta (hmod hsta) hlt

lemma convertLoop_done {drain : PageM Unit} {Q : EfiStatus → State → Prop}
    {E : Failure → State → Prop} (hge : stop ≤ start) (h : Q .success s) :
    Ends (convertLoop drain change numberOfPages stop fuel start s) Q E := by
  cases fuel <;> exact ends_ite (fun hlt => absurd hlt (not_lt.mpr hge)) fun _ => ends_pure h

lemma convert_suspended (h : Inv cfg s) (hs : s.mFreeMapStack ≠ 0) (hroom : Room s)
    (htype : type ≠ efiConventionalMemory) :
    Ends (coreConvertPages suspendedDrain start numberOfPages type s)
      (fun _ s' => Searched cfg s s') (Halts s) := by
  refine ends_coreConvertPagesEx (Halts.assert (Frame.refl s)) fun stop hsta hmod hlt => ?_
  obtain ⟨k, hk⟩ : ∃ k, stop - start = k + 1 := ⟨stop - start - 1, by omega⟩
  rw [hk, convertLoop]
  refine ends_ite (fun _ => ?_) fun hge => absurd hlt hge
  refine ends_bind ((convertEntry_spec h.map h.depth_lt hsta hmod hlt).mono ?_
    fun f s' hst => hst.halts hroom)
  rintro r s' (⟨rfl, rfl⟩ | ⟨rangeEnd, rfl, hconv⟩)
  · exact ends_pure ⟨h, Frame.refl _, le_rfl, le_rfl⟩
  have hfra := hconv.keeps.frame
  refine ends_bind ((suspendedDrain_spec (by rw [hfra.mFreeMapStack]; exact hs)).mono ?_ ?_)
  · rintro - s'' rfl
    -- an allocation is not cut into several ranges
    have hend := hconv.whole type rfl htype
    refine convertLoop_done ?_ ⟨hconv.toWorked.inv h.untested, hfra, hconv.keeps.freeEntries,
      hconv.depth_ge⟩
    rw [u64_of_lt hconv.range_top]
    omega
  · rintro f s'' ⟨rfl, rfl⟩
    exact Halts.assert hfra

/-! ### Promotion -/

lemma untested_promoteEntry (g : GcdMapEntry) :
    untested cfg (promoteEntry cfg.gDxeCoreImageHandle g) = false := by
  grind [promoteEntry, untested, promotable]

lemma UntestedOk.promote {done rest : List GcdMapEntry} {g g' : GcdMapEntry}
    (h : UntestedOk cfg (done ++ g :: rest) S) (hg : untested cfg g = true)
    (hg' : untested cfg g' = false) :
    UntestedOk cfg (done ++ g' :: rest) (S ∪ range g.baseAddress g.endAddress) := by
  have hold : ∀ x ∈ done ++ g' :: rest, untested cfg x = true → x ∈ done ++ g :: rest ∧
      (x.endAddress < g.baseAddress ∨ g.endAddress < x.baseAddress) := by
    intro x hx hu
    have hap := h.apart
    simp only [List.pairwise_append, List.pairwise_cons, List.mem_cons, forall_eq_or_imp] at hap
    rcases List.mem_append.mp hx with hx | hx
    · exact ⟨List.mem_append_left _ hx, (hap.2.2 x hx).1 hu hg⟩
    · rcases List.mem_cons.mp hx with rfl | hx
      · rw [hg'] at hu
        cases hu
      · exact ⟨by simp [hx], (hap.2.1.1 x hx hg hu).symm⟩
  refine ⟨fun x hx hu => h.pages x (hold x hx hu).1 hu, fun x hx hu a ha => ?_, ?_⟩
  · rcases ha with ha | ha
    · exact h.out x (hold x hx hu).1 hu a ha
    grind [mem_range]
  · have hap := h.apart
    grind [List.pairwise_cons]

lemma addNewRange_spec (h : MapOk s.gMemoryMap s.mMapDepth (Added s)) (hpag : IsPages start stop)
    (hout : ∀ a ∈ Added s, ¬ (start ≤ a ∧ a ≤ stop)) :
    Ends (addNewRange type start stop attr s)
      (fun _ s' => MapOk s'.gMemoryMap s'.mMapDepth (Added s') ∧
        Added s' = Added s ∪ range start stop ∧ s.mMapDepth ≤ s'.mMapDepth ∧
        s'.mMapDepth ≤ s.mMapDepth + 1 ∧ s'.mMapDepth < maxMapDepth ∧ Keeps { s with added := (start, stop) :: s.added } s')
      (Stops s 1) := by
  have hadd : ∀ t : State, t.added = (start, stop) :: s.added →
      Added t = Added s ∪ range start stop := by
    intro t ht
    ext a
    simp only [Added, ht, List.mem_cons, exists_eq_or_imp, Set.mem_ofPred_eq, Set.mem_union,
      mem_range]
    exact or_comm
  have hsta : MapOk ({ s with added := (start, stop) :: s.added } : State).gMemoryMap
    ({ s with added := (start, stop) :: s.added } : State).mMapDepth (Added s) := h
  refine ends_bind (ends_modify ((coreAddRange_spec hsta hpag hout).mono (fun _ s' hw => ?_)
    fun f s' hs => ⟨hs.released, hs.promotions, hs.failure⟩))
  have heq := hadd s' hw.keeps.added
  exact ⟨heq ▸ hw.map, heq, hw.depth_ge, hw.depth, hw.depth_lt, hw.keeps⟩

/-- What promotion leaves alone: everything outside the memory map and the GCD map. -/
structure Near (s s' : State) : Prop where
  mFreeMapStack : s'.mFreeMapStack = s.mFreeMapStack
  gMemoryLock : s'.gMemoryLock = s.gMemoryLock
  mGcdMemorySpaceLock : s'.mGcdMemorySpaceLock = s.mGcdMemorySpaceLock
  released : s'.released = s.released
  promotions : s'.promotions = s.promotions

lemma Near.refl (s : State) : Near s s := ⟨rfl, rfl, rfl, rfl, rfl⟩

lemma Near.trans (h : Near s s') (h' : Near s' s'') : Near s s'' where
  mFreeMapStack := h'.mFreeMapStack.trans h.mFreeMapStack
  gMemoryLock := h'.gMemoryLock.trans h.gMemoryLock
  mGcdMemorySpaceLock := h'.mGcdMemorySpaceLock.trans h.mGcdMemorySpaceLock
  released := h'.released.trans h.released
  promotions := h'.promotions.trans h.promotions

lemma Near.stops {m : ℕ} (h : Near s s') (h' : Stops s' n f s'')
    (hdep : s'.mMapDepth + n ≤ s.mMapDepth + m) : Stops s m f s'' where
  released := h'.released.trans h.released
  promotions := h'.promotions.trans h.promotions
  failure := h'.failure.imp_right fun h => ⟨h.1, h.2.trans hdep⟩

lemma promoteOne_spec {done rest : List GcdMapEntry} {g : GcdMapEntry} (h : Inv cfg s)
    (hgcd : s.mGcdMemorySpaceMap = done ++ g :: rest) (hg : untested cfg g = true) :
    Ends (addNewRange efiConventionalMemory g.baseAddress g.endAddress (promotedAttributes g)
        { s with mGcdMemorySpaceMap :=
            s.mGcdMemorySpaceMap.set done.length (promoteEntry cfg.gDxeCoreImageHandle g) })
      (fun _ s' => Inv cfg s' ∧ Near s s' ∧ s.freeEntries ≤ s'.freeEntries ∧
        s.mMapDepth ≤ s'.mMapDepth ∧ s'.mMapDepth ≤ s.mMapDepth + 1 ∧ s'.mGcdMemorySpaceMap =
          done ++ promoteEntry cfg.gDxeCoreImageHandle g :: rest)
      (Stops s 1) := by
  have hmem : g ∈ s.mGcdMemorySpaceMap := by simp [hgcd]
  have hset : s.mGcdMemorySpaceMap.set done.length (promoteEntry cfg.gDxeCoreImageHandle g) =
      done ++ promoteEntry cfg.gDxeCoreImageHandle g :: rest := by
    rw [hgcd, List.set_append_right _ _ le_rfl]
    simp
  rw [hset]
  let s₁ : State :=
    { s with mGcdMemorySpaceMap := done ++ promoteEntry cfg.gDxeCoreImageHandle g :: rest }
  have h₁ : MapOk s₁.gMemoryMap s₁.mMapDepth (Added s₁) := h.map
  refine (addNewRange_spec h₁ (h.untested.pages g hmem hg) (h.untested.out g hmem hg)).mono
    (fun _ s' hw => ?_) fun f s' hs => ⟨hs.released, hs.promotions, hs.failure⟩
  obtain ⟨hmap, hadd, hge, hdep, hlt, hk⟩ := hw
  refine ⟨⟨hmap, hlt, ?_⟩, ⟨hk.mFreeMapStack, hk.gMemoryLock, hk.mGcdMemorySpaceLock, hk.released,
    hk.promotions⟩, hk.freeEntries, hge, hdep, hk.mGcdMemorySpaceMap⟩
  rw [hk.mGcdMemorySpaceMap, hadd]
  have hu := h.untested
  rw [hgcd] at hu
  exact hu.promote hg (untested_promoteEntry g)

lemma promoteLoop_suspended (done rest : List GcdMapEntry) (promoted : Bool) (h : Inv cfg s)
    (hgcd : s.mGcdMemorySpaceMap = done ++ rest) (hdone : ∀ x ∈ done, untested cfg x = false)
    (hs : s.mFreeMapStack ≠ 0) :
    Ends (promoteLoop cfg suspendedDrain rest done.length promoted s)
      (fun r s' => Inv cfg s' ∧ Near s s' ∧ s.freeEntries ≤ s'.freeEntries ∧
        s.mMapDepth ≤ s'.mMapDepth ∧ s'.mMapDepth ≤ s.mMapDepth + rest.countP (untested cfg) ∧
        (∀ x ∈ s'.mGcdMemorySpaceMap, untested cfg x = false) ∧
        (r = true → promoted = true ∨ ∃ x ∈ rest, untested cfg x = true))
      (Stops s (rest.countP (untested cfg))) := by
  induction rest generalizing s done promoted with
  | nil =>
    refine ends_pure ⟨h, Near.refl s, le_rfl, le_rfl, le_rfl, ?_, .inl⟩
    rw [hgcd]
    simpa using hdone
  | cons g rest ih =>
    refine ends_ite (fun hg => ?_) fun hg => ?_
    · rw [List.countP_cons_of_pos hg]
      refine ends_bind (ends_modify (ends_bind ((promoteOne_spec h hgcd hg).mono
        (fun _ s₁ hw => ?_) fun f s₁ hst => (Near.refl s).stops hst (by omega))))
      obtain ⟨h₁, hnear, hfree, hge, hdep, hgcd₁⟩ := hw
      have hs₁ : s₁.mFreeMapStack ≠ 0 := by
        rw [hnear.mFreeMapStack]
        exact hs
      refine ends_bind ((suspendedDrain_spec hs₁).mono ?_ ?_)
      · rintro - s₂ rfl
        have hlen : done.length + 1 =
            (done ++ [promoteEntry cfg.gDxeCoreImageHandle g]).length := by simp
        rw [hlen]
        refine (ih _ true h₁ (by simp [hgcd₁]) ?_ hs₁).mono (fun r s' hr => ?_)
          fun f s' hst => hnear.stops hst (by omega)
        · grind [List.mem_singleton.mp, untested_promoteEntry]
        · obtain ⟨h₂, hnea₂, hfre₂, hge₂, hdep₂, hnone, -⟩ := hr
          exact ⟨h₂, hnear.trans hnea₂, hfree.trans hfre₂, hge.trans hge₂, by omega, hnone,
            fun _ => .inr ⟨g, List.mem_cons_self, hg⟩⟩
      · rintro f s₂ ⟨rfl, rfl⟩
        exact ⟨hnear.released, hnear.promotions, .inl rfl⟩
    · rw [List.countP_cons_of_neg hg]
      have hlen : done.length + 1 = (done ++ [g]).length := by simp
      grind

/-- A promotion while draining is suspended takes all untested memory; it leaves room for a
conversion unless there was too much of it. -/
lemma promote_suspended (h : Inv cfg s) (hs : s.mFreeMapStack ≠ 0) :
    Ends (promoteMemoryResource cfg suspendedDrain s)
      (fun r s' => Searched cfg s s' ∧ Room s' ∧
        (∀ x ∈ s'.mGcdMemorySpaceMap, untested cfg x = false) ∧
        (r = true → ∃ x ∈ s.mGcdMemorySpaceMap, untested cfg x = true))
      (Halts s) := by
  refine ends_bind (ends_bind (ends_get (ends_bind (ends_assertThat (fun hlock => ?_)
    (Halts.assert (Frame.refl s))))))
  refine ends_modify (ends_bind (ends_modify (ends_bind (ends_get ?_))))
  have hobs : observePromotion cfg { s with mGcdMemorySpaceLock := true } =
      { s with
        mGcdMemorySpaceLock := true
        promotions := ⟨s.mMapDepth, s.mGcdMemorySpaceMap.countP (untested cfg)⟩ ::
          s.promotions } := by
    rw [observePromotion, if_pos hs]
  rw [hobs]
  generalize hs₁ : ({ s with
    mGcdMemorySpaceLock := true
    promotions := ⟨s.mMapDepth, s.mGcdMemorySpaceMap.countP (untested cfg)⟩ :: s.promotions } :
      State) = s₁
  have h₁ : Inv cfg s₁ := by
    rw [← hs₁]
    exact ⟨h.map, h.depth_lt, h.untested⟩
  have hgcd : s₁.mGcdMemorySpaceMap = s.mGcdMemorySpaceMap := by rw [← hs₁]
  have hdep₁ : s₁.mMapDepth = s.mMapDepth := by rw [← hs₁]
  have hobse : ⟨s.mMapDepth, s.mGcdMemorySpaceMap.countP (untested cfg)⟩ ∈ s₁.promotions := by
    rw [← hs₁]
    exact List.mem_cons_self
  have hsuf : s.promotions <:+ s₁.promotions := by
    rw [← hs₁]
    exact List.suffix_cons _ _
  refine ends_bind ((promoteLoop_suspended [] s₁.mGcdMemorySpaceMap false h₁ rfl (by simp)
    (by rw [← hs₁]; exact hs)).mono (fun r s₂ hr => ?_) fun f s₂ hst => ?_)
  · obtain ⟨h₂, hnear, hfree, hge, hdep, hnone, hr⟩ := hr
    have hloc₂ : s₂.mGcdMemorySpaceLock = true := by
      rw [hnear.mGcdMemorySpaceLock, ← hs₁]
    refine ends_bind (ends_bind (ends_get (ends_bind (ends_assertThat (fun _ => ?_) ?_))))
    · refine ends_modify (ends_pure ⟨⟨⟨h₂.map, h₂.depth_lt, h₂.untested⟩, ⟨?_, ?_, hlock.symm, ?_, ?_,
        ?_⟩, ?_, ?_⟩, ?_, hnone, ?_⟩)
      · rw [hnear.mFreeMapStack, ← hs₁]
      · rw [hnear.gMemoryLock, ← hs₁]
      · rw [hnear.released, ← hs₁]
      · simp only [hnear.promotions]
        exact hsuf
      · intro htrue
        rw [hlock] at htrue
        cases htrue
      · rw [← hs₁] at hfree
        exact hfree
      · rw [hdep₁] at hge
        exact hge
      · by_cases hcro : s.mMapDepth + s.mGcdMemorySpaceMap.countP (untested cfg) + 2 < maxMapDepth
        · left
          rw [hgcd, hdep₁] at hdep
          simp only
          omega
        · right
          simp only [hnear.promotions]
          exact ⟨_, hobse, not_lt.mp hcro⟩
      · intro htrue
        simpa [hgcd] using hr htrue
    · refine ⟨?_, .inl rfl⟩
      rw [hnear.released, ← hs₁]
  · refine ⟨?_, hst.failure.imp_right fun ⟨hf, hle⟩ => ⟨hf, ?_⟩⟩
    · rw [hst.released, ← hs₁]
    · rw [hst.promotions]
      rw [hgcd, hdep₁] at hle
      exact ⟨_, hobse, hle.trans (Nat.le_add_right _ _)⟩

lemma searchBins_snd (maxAddress noPages : ℕ) (newType : MemoryType) (alignment : ℕ) (s : State) :
    ∃ base, (searchBins maxAddress noPages newType alignment s).2 =
      { s with mDefaultBaseAddress := base } := by
  unfold searchBins
  simp only
  split_ifs <;> exact ⟨_, rfl⟩

/-- A search keeps what a promotion keeps. The second promotion finds nothing, so two rounds are
enough. -/
lemma findFreePages_spec {drain : PageM Unit} {maxAddress noPages : ℕ} {newType : MemoryType}
    {alignment : ℕ} {I : State → Prop} {E : Failure → State → Prop}
    (hsea : ∀ t base, I t → I { t with mDefaultBaseAddress := base })
    (hpro : ∀ t, I t → Ends (promoteMemoryResource cfg drain t)
      (fun r t' => I t' ∧ (∀ x ∈ t'.mGcdMemorySpaceMap, untested cfg x = false) ∧
        (r = true → ∃ x ∈ t.mGcdMemorySpaceMap, untested cfg x = true)) E)
    (h : I s) :
    Ends (findFreePages cfg drain maxAddress noPages newType alignment 2 s) (fun _ s' => I s')
      E := by
  have hbins : ∀ t, I t → Ends (findInBins maxAddress noPages newType alignment t)
      (fun _ t' => I t' ∧ t'.mGcdMemorySpaceMap = t.mGcdMemorySpaceMap) E := by
    intro t ht
    obtain ⟨base, heq⟩ := searchBins_snd maxAddress noPages newType alignment t
    refine ends_bind (ends_get (ends_bind (ends_set (ends_pure ?_))))
    rw [heq]
    exact ⟨hsea t base ht, rfl⟩
  refine ends_bind ((hbins s h).imp fun start s₁ h₁ => ?_)
  refine ends_ite (fun _ => ends_pure h₁.1) fun _ => ?_
  refine ends_bind ((hpro s₁ h₁.1).imp fun promoted s₂ h₂ => ?_)
  refine ends_ite (fun _ => ?_) fun _ => ends_pure h₂.1
  -- the second round
  refine ends_bind ((hbins s₂ h₂.1).imp fun start s₃ h₃ => ?_)
  refine ends_ite (fun _ => ends_pure h₃.1) fun _ => ?_
  refine ends_bind ((hpro s₃ h₃.1).imp fun promoted s₄ h₄ => ?_)
  refine ends_ite (fun htrue => ?_) fun _ => ends_pure h₄.1
  grind

lemma find_suspended {maxAddress noPages : ℕ} {newType : MemoryType} {alignment : ℕ}
    (h : Inv cfg s) (hs : s.mFreeMapStack ≠ 0) (hroom : Room s) :
    Ends (findFreePages cfg suspendedDrain maxAddress noPages newType alignment 2 s)
      (fun _ s' => Searched cfg s s' ∧ Room s') (Halts s) := by
  refine findFreePages_spec (I := fun t => Searched cfg s t ∧ Room t) (fun t base ht => ?_)
    (fun t ht => ?_) ⟨⟨h, Frame.refl s, le_rfl, le_rfl⟩, hroom⟩
  · obtain ⟨⟨hinv, hf, hfree, hdep⟩, hroom⟩ := ht
    exact ⟨⟨⟨hinv.map, hinv.depth_lt, hinv.untested⟩, ⟨hf.mFreeMapStack, hf.gMemoryLock,
      hf.mGcdMemorySpaceLock, hf.released, hf.promotions, hf.gcdMap⟩, hfree, hdep⟩, hroom⟩
  · have hsus : t.mFreeMapStack ≠ 0 := by
      rw [ht.1.frame.mFreeMapStack]
      exact hs
    refine (promote_suspended ht.1.inv hsus).mono (fun r t' hp => ?_)
      fun f t' hh => hh.trans ht.1.frame
    exact ⟨⟨ht.1.trans hp.1, hp.2.1⟩, hp.2.2⟩

lemma allocate_suspended {alignment : ℕ} (h : Inv cfg s) (hs : s.mFreeMapStack ≠ 0)
    (hroom : Room s) (htype : type ≠ efiConventionalMemory) :
    Ends (coreAllocatePoolPages cfg suspendedDrain type numberOfPages alignment s)
      (fun _ s' => Searched cfg s s') (Halts s) := by
  refine ends_bind ((find_suspended h hs hroom).imp fun start s₁ hf => ?_)
  obtain ⟨hf, hroo₁⟩ := hf
  refine ends_bind ?_
  refine ends_ite (fun _ => ends_pure (ends_pure hf)) fun _ => ?_
  have hs₁ : s₁.mFreeMapStack ≠ 0 := by
    rw [hf.frame.mFreeMapStack]
    exact hs
  refine ends_bind ((convert_suspended hf.inv hs₁ hroo₁ htype).mono (fun _ s₂ hc => ?_)
    fun f s₂ hh => hh.trans hf.frame)
  exact ends_pure (ends_pure (hf.trans hc))

/-! ### The loop of CoreFreeMemoryMapStack -/

lemma takeSlot_eq_none {slot : ℕ} (h : takeSlot slot map = none) :
    ∀ x ∈ map, x.slot ≠ some slot := by
  induction map with
  | nil => simp
  | cons x rest ih =>
    grind [takeSlot, Option.map_eq_none_iff]

lemma takeSlot_eq_some {slot : ℕ} {rest : List MemoryMap} (h : takeSlot slot map = some (e, rest)) :
    ∃ before after, map = before ++ e :: after ∧ rest = before ++ after ∧ e.slot = some slot := by
  induction map generalizing rest with
  | nil => cases h
  | cons x tail ih =>
    rw [takeSlot] at h
    split_ifs at h with hslot
    · cases h
      exact ⟨[], tail, rfl, rfl, hslot⟩
    · rcases ht : takeSlot slot tail with _ | ⟨y, l⟩
      · rw [ht] at h
        cases h
      grind

lemma insertEntry_perm (e : MemoryMap) (map : List MemoryMap) :
    (insertEntry e map).Perm (e :: map) := by
  induction map with
  | nil => exact .refl _
  | cons x rest ih =>
    grind [insertEntry]

lemma insertEntry_sorted (he : e.fromPages = true)
    (hsor : (map.filter MemoryMap.fromPages).Pairwise fun x y => x.start < y.start)
    (hne : ∀ x ∈ map, x.start ≠ e.start) :
    ((insertEntry e map).filter MemoryMap.fromPages).Pairwise fun x y => x.start < y.start := by
  induction map with
  | nil => simp [insertEntry, he]
  | cons x rest ih =>
    have hrest : (rest.filter MemoryMap.fromPages).Pairwise fun x y => x.start < y.start :=
      hsor.sublist ((List.sublist_cons_self x rest).filter _)
    rw [insertEntry]
    split_ifs with hpla
    · obtain ⟨hx, hlt⟩ := hpla
      rw [List.filter_cons_of_pos he]
      refine List.pairwise_cons.mpr ⟨fun y hy => ?_, hsor⟩
      rw [List.filter_cons_of_pos hx] at hsor hy
      rcases List.mem_cons.mp hy with rfl | hy
      · exact hlt
      · exact lt_trans hlt ((List.pairwise_cons.mp hsor).1 y hy)
    · have ih' := ih hrest fun y hy => hne y (List.mem_cons_of_mem x hy)
      by_cases hx : x.fromPages = true
      · rw [List.filter_cons_of_pos hx] at hsor ⊢
        refine List.pairwise_cons.mpr ⟨fun y hy => ?_, ih'⟩
        obtain ⟨hy, hfrom⟩ := List.mem_filter.mp hy
        rcases List.mem_cons.mp ((insertEntry_perm e rest).mem_iff.mp hy) with rfl | hy
        · grind
        grind [List.pairwise_cons.mp]
      · rw [List.filter_cons_of_neg hx]
        exact ih'

lemma MapOk.pop (h : MapOk (before ++ e :: after) (depth + 1) S) (he : e.slot = some depth) :
    MapOk (insertEntry { e with slot := none } (before ++ after)) depth S := by
  have hcov : Covers (e :: (before ++ after)) S := h.perm_cons.1
  have hsep : Separated (e :: (before ++ after)) := h.perm_cons.2
  have hpag := h.pages e (by simp)
  have hperm := (insertEntry_perm { e with slot := none } (before ++ after)).symm
  have hold : ∀ x ∈ before ++ after, x ∈ before ++ e :: after := by
    grind
  have hnew : ∀ x ∈ insertEntry { e with slot := none } (before ++ after),
      x = { e with slot := none } ∨ x ∈ before ++ after :=
    fun x hx => List.mem_cons.mp (hperm.mem_iff.mpr hx)
  -- the slots of the others are below the one that is given up
  have hslo : ∀ x ∈ before ++ after, ∀ i ∈ x.slot, i < depth := by
    intro x hx i hi
    refine lt_of_le_of_ne (Nat.lt_succ_iff.mp (h.slots x (hold x hx) i hi)) ?_
    rintro rfl
    have hdis := h.distinct
    grind
  have hcov' : Covers ({ e with slot := none } :: (before ++ after)) S := hcov.replace rfl rfl
  have hsep' : Separated ({ e with slot := none } :: (before ++ after)) :=
    hsep.replace rfl rfl rfl hpag.lt.le
  refine ⟨hcov'.perm hperm, hsep'.perm hperm, fun x hx => ?_, ?_, fun x hx => ?_, ?_⟩
  · rcases hnew x hx with rfl | hx
    · exact hpag
    · exact h.pages x (hold x hx)
  · refine insertEntry_sorted rfl (h.sorted.sublist (List.Sublist.filter _ (by simp)))
      fun x hx hsta => ?_
    have hap : e.stop < x.start ∨ x.stop < e.start := hcov.apart_of_cons hx
    have := (h.pages x (hold x hx)).lt
    have := hpag.lt
    simp only at hsta
    omega
  · grind
  · have hdis : ({ e with slot := none } :: (before ++ after)).Pairwise
        fun x y => ∀ i ∈ x.slot, i ∉ y.slot := by
      refine List.pairwise_cons.mpr ⟨fun x _ i hi => absurd hi (by simp), ?_⟩
      exact h.distinct.sublist (by simp)
    exact hdis.perm hperm fun hxy i hi hj => hxy i hj hi

lemma MapOk.popDead (h : MapOk map (depth + 1) S) (hnone : ∀ x ∈ map, x.slot ≠ some depth) :
    MapOk map depth S := by
  refine { h with slots := fun x hx i hi => ?_ }
  refine lt_of_le_of_ne (Nat.lt_succ_iff.mp (h.slots x hx i hi)) ?_
  rintro rfl
  exact hnone x hx hi

lemma popMapStack_spec (h : Inv cfg s) (hdep : s.mMapDepth ≠ 0) :
    Inv cfg (popMapStack s) ∧ Frame s (popMapStack s) ∧
      (popMapStack s).mMapDepth + 1 = s.mMapDepth ∧
      s.freeEntries ≤ (popMapStack s).freeEntries ∧
      (popMapStack s).promotions = s.promotions := by
  obtain ⟨d, hd⟩ : ∃ d, s.mMapDepth = d + 1 := ⟨s.mMapDepth - 1, by omega⟩
  have hlt := h.depth_lt
  have hmap := h.map
  rw [hd] at hmap
  unfold popMapStack
  simp only [hd, Nat.add_sub_cancel]
  rcases htake : takeSlot d s.gMemoryMap with _ | ⟨e, rest⟩
  · exact ⟨⟨hmap.popDead (takeSlot_eq_none htake), by simp only; omega, h.untested⟩,
      ⟨rfl, rfl, rfl, rfl, List.suffix_rfl, fun _ => rfl⟩, rfl, Nat.le_succ _, rfl⟩
  · obtain ⟨before, after, hspl, rfl, hslot⟩ := takeSlot_eq_some htake
    rw [hspl] at hmap
    exact ⟨⟨hmap.pop hslot, by simp only; omega, h.untested⟩,
      ⟨rfl, rfl, rfl, rfl, List.suffix_rfl, fun _ => rfl⟩, rfl, le_rfl, rfl⟩

lemma allocateMemoryMapEntry_spec (h : Inv cfg s) (hs : s.mFreeMapStack ≠ 0)
    (hroom : s.freeEntries = 0 → Room s) :
    Ends (allocateMemoryMapEntry cfg suspendedDrain s)
      (fun available s' => Inv cfg s' ∧ Frame s s' ∧ (available = true →
        (s.freeEntries ≠ 0 ∧ s' = { s with freeEntries := s.freeEntries - 1 }) ∨
        (s.freeEntries = 0 ∧ entriesPerPage ≤ s'.freeEntries + 1 ∧ s.mMapDepth ≤ s'.mMapDepth)))
      (Halts s) := by
  refine ends_bind (ends_bind (ends_get (ends_ite (fun hfree => ?_) fun hfree => ?_)))
  · refine ends_bind ((allocate_suspended h hs (hroom hfree) (by decide)).imp fun start s₁ hf => ?_)
    refine ends_ite (fun _ => ends_pure (ends_pure ?_)) fun _ => ends_bind (ends_modify
      (ends_pure (ends_bind (ends_modify (ends_pure ?_)))))
    · exact ⟨hf.inv, hf.frame, fun hfal => by cases hfal⟩
    · refine ⟨⟨hf.inv.map, hf.inv.depth_lt, hf.inv.untested⟩, ⟨hf.frame.mFreeMapStack,
        hf.frame.gMemoryLock, hf.frame.mGcdMemorySpaceLock, hf.frame.released,
        hf.frame.promotions, hf.frame.gcdMap⟩, fun _ => .inr ⟨hfree, ?_, hf.depth⟩⟩
      simp only
      omega
  · exact ends_pure (ends_bind (ends_modify (ends_pure ⟨⟨h.map, h.depth_lt, h.untested⟩,
      ⟨rfl, rfl, rfl, rfl, List.suffix_rfl, fun _ => rfl⟩, fun _ => .inl ⟨hfree, rfl⟩⟩)))

/-- The loop empties the stack. It ends after as many iterations as there are slots if there are
descriptors for them; else a refill provides these. -/
lemma drainLoop_spec (h : Inv cfg s) (hs : s.mFreeMapStack ≠ 0)
    (hfuel : (s.mMapDepth ≤ s.freeEntries ∧ s.mMapDepth ≤ fuel) ∨
      (Room s ∧ s.mMapDepth + maxMapDepth ≤ fuel)) :
    Ends (drainLoop cfg suspendedDrain fuel s)
      (fun _ s' => Inv cfg s' ∧ Frame s s' ∧ s'.mMapDepth = 0) (Halts s) := by
  induction fuel generalizing s with
  | zero =>
    refine ends_bind (ends_get (ends_ite (fun hne => ?_) fun hz => ?_))
    · omega
    · exact ends_pure ⟨h, Frame.refl s, not_not.mp hz⟩
  | succ fuel ih =>
    refine ends_bind (ends_get (ends_ite (fun hne => ?_) fun hz => ?_))
    swap
    · exact ends_pure ⟨h, Frame.refl s, not_not.mp hz⟩
    have hroom : s.freeEntries = 0 → Room s := fun hfree =>
      hfuel.elim (fun hd => absurd hd.1 (by omega)) And.left
    refine ends_bind ((allocateMemoryMapEntry_spec h hs hroom).imp fun available s₁ ha => ?_)
    obtain ⟨h₁, hfra₁, hava⟩ := ha
    refine ends_bind (ends_assertThat (fun htrue => ?_) (Halts.assert hfra₁))
    have hlt₁ := h₁.depth_lt
    have hne₁ : s₁.mMapDepth ≠ 0 := by
      grind
    obtain ⟨h₂, hfra₂, hdep₂, hfre₂, hpro₂⟩ := popMapStack_spec h₁ hne₁
    have hfra := hfra₁.trans hfra₂
    refine ends_bind (ends_modify ((ih h₂ (by rw [hfra.mFreeMapStack]; exact hs) ?_).mono
      (fun _ s' hd => ⟨hd.1, hfra.trans hd.2.1, hd.2.2⟩) fun f s' hh => hh.trans hfra))
    rcases hava htrue with ⟨hfree, heq⟩ | ⟨hfree, hmany, hge⟩
    · -- there was a descriptor
      have hdep₁ : s₁.mMapDepth = s.mMapDepth := by rw [heq]
      have hfre₁ : s₁.freeEntries = s.freeEntries - 1 := by rw [heq]
      have hpro₁ : s₁.promotions = s.promotions := by rw [heq]
      rcases hfuel with hd | ⟨hr, hd⟩
      · exact .inl ⟨by omega, by omega⟩
      · refine .inr ⟨hr.imp (fun hlt => by omega) fun hc => ?_, by omega⟩
        rw [hpro₂, hpro₁]
        exact hc
    grind

end Edk2.Page
