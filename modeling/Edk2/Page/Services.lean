import Edk2.Page.Drain

/-!
# The page services

The boot services `AllocatePages` and `FreePages`, the page functions of the pool code, the update
of attributes and the addition of memory. Each takes the memory lock and releases it; the addition
of the first memory also allocates and frees the bins of the memory types.
-/

namespace Edk2.Page

open Edk2.Pool (MemoryType efiConventionalMemory efiPersistentMemory efiMaxMemoryType
  memoryTypeOemReservedMin efiSizeToPages)

/-- `EFI_ALLOCATE_TYPE`; every value from `MaxAllocateType` on is `maxAllocateType`. -/
inductive AllocateType
  | anyPages
  | maxAddress
  | address
  | maxAllocateType
deriving DecidableEq, Repr

/-- `NumberOfPages` rounded up to the granularity of the memory type. -/
def roundPages (numberOfPages granularity : ℕ) : ℕ :=
  let pages := u64 (numberOfPages + (efiSizeToPages granularity - 1))
  pages - pages % efiSizeToPages granularity

/-- `CoreConvertPages` as the services call it. -/
def convertPages (cfg : Config) (start numberOfPages : ℕ) (newType : MemoryType) :
    PageM EfiStatus :=
  coreConvertPages (coreFreeMemoryMapStack cfg) start numberOfPages newType

/-! ### Allocation -/

/-- `AllocateAddress` does not fit below `MAX_ALLOC_ADDRESS`. -/
def AddressRejected (cfg : Config) (start numberOfPages : ℕ) : Prop :=
  let stop := endOfPages start numberOfPages
  numberOfPages = 0 ∨ numberOfPages > cfg.maxAllocAddress / efiPageSize ∨ start ≥ stop ∨
    start > cfg.maxAllocAddress ∨ stop > cfg.maxAllocAddress

instance (cfg : Config) (start numberOfPages : ℕ) :
    Decidable (AddressRejected cfg start numberOfPages) :=
  inferInstanceAs (Decidable (_ ∨ _))

/-- Convert the pages found, or give up. -/
def allocateFound (cfg : Config) (memoryType : MemoryType) (numberOfPages start : ℕ) :
    PageM (EfiStatus × ℕ) :=
  if start = 0 then return (.outOfResources, start)
  else do
    let status ← convertPages cfg start numberOfPages memoryType
    return (status, start)

/-- The part of `CoreInternalAllocatePages` under the lock; the status and `Start`. -/
def allocateLocked (cfg : Config) (type : AllocateType) (memoryType : MemoryType)
    (numberOfPages memory granularity : ℕ) : PageM (EfiStatus × ℕ) :=
  if type = .address then do
    let status ← convertPages cfg memory numberOfPages memoryType
    return (status, memory)
  else do
    let limit := if type = .maxAddress then memory else cfg.maxAllocAddress
    let start ← findFreePages cfg (coreFreeMemoryMapStack cfg) limit numberOfPages memoryType
      granularity 2
    allocateFound cfg memoryType numberOfPages start

/-- Run under the memory lock. -/
def locked {α : Type} (body : PageM α) : PageM α := do
  coreAcquireMemoryLock
  let result ← body
  coreReleaseMemoryLock
  return result

/-- `CoreInternalAllocatePages`; `memory` is `none` for a `NULL` pointer, else the value it points
to. The result is the status and the value left in `*Memory`. -/
def coreInternalAllocatePages (cfg : Config) (type : AllocateType) (memoryType : MemoryType)
    (numberOfPages : ℕ) (memory : Option ℕ) : PageM (EfiStatus × Option ℕ) :=
  let granularity := cfg.granularity memoryType
  let pages := roundPages numberOfPages granularity
  if type = .maxAllocateType then return (.invalidParameter, memory)
  else if (memoryType ≥ efiMaxMemoryType ∧ memoryType < memoryTypeOemReservedMin) ∨
      memoryType = efiConventionalMemory ∨ memoryType = efiPersistentMemory then
    return (.invalidParameter, memory)
  else
    match memory with
    | none => return (.invalidParameter, memory)
    | some start =>
      if type = .address ∧ start % granularity ≠ 0 then return (.notFound, memory)
      else if type = .address ∧ AddressRejected cfg start pages then return (.notFound, memory)
      else do
        let result ← locked (allocateLocked cfg type memoryType pages start granularity)
        return (result.1, if result.1.isError then memory else some result.2)

def coreAllocatePages (cfg : Config) (type : AllocateType) (memoryType : MemoryType)
    (numberOfPages : ℕ) (memory : Option ℕ) : PageM (EfiStatus × Option ℕ) :=
  coreInternalAllocatePages cfg type memoryType numberOfPages memory

/-! ### Freeing -/

/-- Free the pages if `Memory` has the alignment of the descriptor that covers it. -/
def freeCovered (cfg : Config) (memory numberOfPages : ℕ) (entry : MemoryMap) : PageM EfiStatus :=
  if memory % cfg.granularity entry.type ≠ 0 then return .invalidParameter
  else
    convertPages cfg memory (roundPages numberOfPages (cfg.granularity entry.type))
      efiConventionalMemory

/-- The part of `CoreInternalFreePages` under the lock. -/
def freeLocked (cfg : Config) (memory numberOfPages : ℕ) : PageM EfiStatus := do
  let s ← get
  match findCover memory s.gMemoryMap with
  | none => return .notFound
  | some (_, entry, _) => freeCovered cfg memory numberOfPages entry

def coreInternalFreePages (cfg : Config) (memory numberOfPages : ℕ) : PageM EfiStatus :=
  locked (freeLocked cfg memory numberOfPages)

def coreFreePages (cfg : Config) (memory numberOfPages : ℕ) : PageM EfiStatus :=
  coreInternalFreePages cfg memory numberOfPages

/-! ### Attributes and pool pages -/

def coreUpdateMemoryAttributes (cfg : Config) (start numberOfPages : ℕ)
    (newAttributes : BitVec 64) : PageM Unit := do
  let _ ← locked (coreConvertPagesEx (coreFreeMemoryMapStack cfg) start numberOfPages
    (.attributes newAttributes))
  return ()

/-- `CoreAllocatePoolPagesI`; `0` stands for `NULL`, the answer if the lock is taken. -/
def coreAllocatePoolPagesI (cfg : Config) (poolType : MemoryType) (noPages granularity : ℕ) :
    PageM ℕ := do
  let s ← get
  if s.gMemoryLock then return 0
  else locked (coreAllocatePoolPages cfg (coreFreeMemoryMapStack cfg) poolType noPages granularity)

def coreFreePoolPagesI (cfg : Config) (memory noPages : ℕ) : PageM Unit :=
  locked (coreFreePoolPages (coreFreeMemoryMapStack cfg) memory noPages)

/-! ### Adding memory -/

def setInformation (index numberOfPages : ℕ) (s : State) : State :=
  { s with gMemoryTypeInformation := s.gMemoryTypeInformation.modify index fun information =>
      { information with numberOfPages := numberOfPages } }

/-- The entry at `index` of the type information table; the table ends at `EfiMaxMemoryType`. -/
def State.information (s : State) (index : ℕ) : Option TypeInformation :=
  (s.gMemoryTypeInformation[index]?).filter fun information => information.type ≠ efiMaxMemoryType

/-- Give up the bin of a memory type again. -/
def resetBin (cfg : Config) (type : MemoryType) (s : State) : State :=
  s.setStatistics type
    { s.mMemoryTypeStatistics type with
      baseAddress := 0, maximumAddress := cfg.maxAllocAddress }

/-- Free the pages of the bin at `index` if there are any, then run `settle` on the state. -/
def freeBin (cfg : Config) (settle : MemoryType → State → State) (information : TypeInformation) :
    PageM Unit :=
  if information.type > efiMaxMemoryType ∨ information.numberOfPages = 0 then return ()
  else do
    let s ← get
    let _ ← coreFreePages cfg (s.mMemoryTypeStatistics information.type).baseAddress
      information.numberOfPages
    modify (settle information.type)

/-- The bins from `index` on are freed, `count` of them at most. -/
def freeBins (cfg : Config) (settle : ℕ → MemoryType → State → State) : ℕ → ℕ → PageM Unit
  | 0, _ => return ()
  | count + 1, index => do
    let s ← get
    match s.information index with
    | none => return ()
    | some information => do
      freeBin cfg (settle index) information
      freeBins cfg settle count (index + 1)

/-- Where the bin of a memory type lies; the default range ends below the lowest bin. -/
def placeBin (type : MemoryType) (numberOfPages base : ℕ) (s : State) : State :=
  let s := s.setStatistics type
    { s.mMemoryTypeStatistics type with
      baseAddress := base
      maximumAddress := endOfPages base numberOfPages }
  if base < s.mDefaultMaximumAddress then
    { s with mDefaultMaximumAddress := u64 (base + (2 ^ 64 - 1)) }
  else s

/-- What follows the attempt to allocate a bin: give up all bins so far, or go on. -/
def binAllocated (cfg : Config) (information : TypeInformation) (index : ℕ) (next : PageM Bool) :
    EfiStatus × Option ℕ → PageM Bool
  | (status, base) =>
    if status.isError then do
      freeBins cfg (fun _ => resetBin cfg) index 0
      return false
    else do
      modify (placeBin information.type information.numberOfPages (base.getD 0))
      next

/-- Allocate pages for each memory type from the top of available memory; whether this
succeeds for all of them. -/
def allocateBins (cfg : Config) : ℕ → ℕ → PageM Bool
  | 0, _ => return true
  | count + 1, index => do
    let s ← get
    match s.information index with
    | none => return true
    | some information =>
      if information.type > efiMaxMemoryType ∨ information.numberOfPages = 0 then
        allocateBins cfg count (index + 1)
      else do
        let result ← coreAllocatePages cfg .anyPages information.type information.numberOfPages
          (some (s.mMemoryTypeStatistics information.type).baseAddress)
        binAllocated cfg information index (allocateBins cfg count (index + 1)) result

/-- Future allocations can occur within the bin. -/
def openBin (index : ℕ) (type : MemoryType) (s : State) : State :=
  setInformation index 0 (s.setStatistics type
    { s.mMemoryTypeStatistics type with
      numberOfPages := ((s.gMemoryTypeInformation[index]?).map TypeInformation.numberOfPages).getD 0 })

/-- The last entry of the table for a memory type. -/
def lastIndex (type : MemoryType) (information : List TypeInformation) (index : ℕ) : ℕ :=
  ((information.takeWhile fun i => i.type ≠ efiMaxMemoryType).zipIdx.foldl
    (fun found i => if i.1.type = type then i.2 else found) index)

/-- Types without a bin are allocated in the default range. -/
def settleStatistics (cfg : Config) (s : State) : State :=
  { s with
    mMemoryTypeStatistics := fun type =>
      let statistics := s.mMemoryTypeStatistics type
      if type < efiMaxMemoryType then
        { statistics with
          informationIndex := lastIndex type s.gMemoryTypeInformation statistics.informationIndex
          currentNumberOfPages := 0
          maximumAddress :=
            if statistics.maximumAddress = cfg.maxAllocAddress then s.mDefaultMaximumAddress
            else statistics.maximumAddress }
      else statistics
    mMemoryTypeInformationInitialized := true }

/-- The statistics for the different memory types are established once. -/
def initializeBins (cfg : Config) : PageM Unit := do
  let s ← get
  if s.mMemoryTypeInformationInitialized then return ()
  else do
    let allocated ← allocateBins cfg s.gMemoryTypeInformation.length 0
    if allocated then do
      freeBins cfg openBin s.gMemoryTypeInformation.length 0
      modify (settleStatistics cfg)
    else return ()

/-- The part of `CoreAddMemoryDescriptor` under the lock. -/
def addLocked (cfg : Config) (type : MemoryType) (start numberOfPages : ℕ) (attr : BitVec 64) :
    PageM Unit := do
  addNewRange type start (endOfPages start numberOfPages) attr
  coreFreeMemoryMapStack cfg

def coreAddMemoryDescriptor (cfg : Config) (type : MemoryType) (start numberOfPages : ℕ)
    (attr : BitVec 64) : PageM Unit :=
  if start % efiPageSize ≠ 0 then return ()
  else if type ≥ efiMaxMemoryType ∧ type < memoryTypeOemReservedMin then return ()
  else do
    locked (addLocked cfg type start numberOfPages attr)
    initializeBins cfg

end Edk2.Page

/-!
## Operations under the memory lock

With draining not suspended every conversion and every promoted range is followed by a drain, so
each operation starts and ends with an empty stack. When the lock is released the descriptors are
all in pages, sorted by their start.
-/

namespace Edk2.Page

open Outcome Segment
open Edk2.Gcd
open Edk2.Pool (MemoryType efiConventionalMemory)

variable {cfg : Config} {start stop : ℕ} {type : MemoryType}
  {s s' s'' : State} {change : Change} {numberOfPages fuel : ℕ} {f : Failure}

/-- The operation started in `s` has come to a state with an empty stack. -/
structure Quiet (cfg : Config) (s s' : State) : Prop where
  inv : Inv cfg s'
  frame : Frame s s'
  depth : s'.mMapDepth = 0

lemma Quiet.trans (h : Quiet cfg s s') (h' : Quiet cfg s' s'') : Quiet cfg s s'' :=
  ⟨h'.inv, h.frame.trans h'.frame, h'.depth⟩

lemma coreFreeMemoryMapStack_spec (h : Inv cfg s) (hs : s.mFreeMapStack = 0) (hroom : Room s) :
    Ends (coreFreeMemoryMapStack cfg s) (fun _ s' => Quiet cfg s s') (Halts s) := by
  refine ends_bind (ends_assertLocked (fun _ => ?_) (Halts.assert (Frame.refl s)))
  refine ends_bind (ends_get (ends_ite (fun hne => absurd hs hne) fun _ => ?_))
  refine ends_bind (ends_modify (ends_bind ?_))
  have h₁ : Inv cfg { s with mFreeMapStack := s.mFreeMapStack + 1 } :=
    ⟨h.map, h.depth_lt, h.untested⟩
  have hlt := h.depth_lt
  refine (drainLoop_spec h₁ (Nat.succ_ne_zero _) (.inr ⟨hroom, ?_⟩)).mono (fun _ s' hd => ?_)
    fun f s' hh => ⟨hh.released, hh.failure⟩
  · simp only
    omega
  · obtain ⟨h₂, hfra, hdep⟩ := hd
    refine ends_modify ⟨⟨h₂.map, h₂.depth_lt, h₂.untested⟩, ⟨?_, hfra.gMemoryLock,
      hfra.mGcdMemorySpaceLock, hfra.released, hfra.promotions, hfra.gcdMap⟩, hdep⟩
    simp only [hfra.mFreeMapStack, Nat.add_sub_cancel]

/-! ### Conversions -/

lemma convertLoop_spec (h : Inv cfg s) (hs : s.mFreeMapStack = 0) (hdep : s.mMapDepth = 0)
    (hsta : start % efiPageSize = 0) (hstop : (stop + 1) % efiPageSize = 0)
    (hfuel : stop - start ≤ fuel) :
    Ends (convertLoop (coreFreeMemoryMapStack cfg) change numberOfPages stop fuel start s)
      (fun _ s' => Quiet cfg s s') (Halts s) := by
  induction fuel generalizing s start with
  | zero => exact convertLoop_done (by omega) ⟨h, Frame.refl s, hdep⟩
  | succ fuel ih =>
    refine ends_ite (fun hlt => ?_) fun _ => ends_pure ⟨h, Frame.refl s, hdep⟩
    refine ends_bind ((convertEntry_spec h.map h.depth_lt hsta hstop hlt).mono ?_
      fun f s' hst => hst.halts (.inl (by rw [hdep]; decide)))
    rintro r s₁ (⟨rfl, rfl⟩ | ⟨rangeEnd, rfl, hconv⟩)
    · exact ends_pure ⟨h, Frame.refl _, hdep⟩
    have hfra := hconv.keeps.frame
    have hsize : maxMapDepth = 6 := rfl
    have hroom : Room s₁ := .inl (by have := hconv.depth; omega)
    refine ends_bind ((coreFreeMemoryMapStack_spec (hconv.toWorked.inv h.untested)
      (by rw [hfra.mFreeMapStack]; exact hs) hroom).mono (fun _ s₂ hq => ?_)
      fun f s₂ hh => hh.trans hfra)
    rw [u64_of_lt hconv.range_top]
    have hran := hconv.range_lt
    refine (ih hq.inv ?_ hq.depth hconv.range_mod (by omega)).mono
      (fun _ s₃ hq' => ⟨hq'.inv, (hfra.trans hq.frame).trans hq'.frame, hq'.depth⟩)
      fun f s₃ hh => hh.trans (hfra.trans hq.frame)
    rw [hq.frame.mFreeMapStack, hfra.mFreeMapStack, hs]

lemma convertEx_spec (h : Inv cfg s) (hs : s.mFreeMapStack = 0) (hdep : s.mMapDepth = 0) :
    Ends (coreConvertPagesEx (coreFreeMemoryMapStack cfg) start numberOfPages change s)
      (fun _ s' => Quiet cfg s s') (Halts s) :=
  ends_coreConvertPagesEx (Halts.assert (Frame.refl s)) fun _ hsta hstop _ =>
    convertLoop_spec h hs hdep hsta hstop le_rfl

/-! ### Promotion -/

/-- What a promotion leaves alone while it holds the GCD lock. -/
structure Outer (s s' : State) : Prop where
  mFreeMapStack : s'.mFreeMapStack = s.mFreeMapStack
  gMemoryLock : s'.gMemoryLock = s.gMemoryLock
  mGcdMemorySpaceLock : s'.mGcdMemorySpaceLock = s.mGcdMemorySpaceLock
  released : s'.released = s.released
  promotions : s.promotions <:+ s'.promotions

lemma Frame.outer (h : Frame s s') : Outer s s' :=
  ⟨h.mFreeMapStack, h.gMemoryLock, h.mGcdMemorySpaceLock, h.released, h.promotions⟩

lemma Near.outer (h : Near s s') : Outer s s' :=
  ⟨h.mFreeMapStack, h.gMemoryLock, h.mGcdMemorySpaceLock, h.released,
    h.promotions ▸ List.suffix_rfl⟩

lemma Outer.trans (h : Outer s s') (h' : Outer s' s'') : Outer s s'' where
  mFreeMapStack := h'.mFreeMapStack.trans h.mFreeMapStack
  gMemoryLock := h'.gMemoryLock.trans h.gMemoryLock
  mGcdMemorySpaceLock := h'.mGcdMemorySpaceLock.trans h.mGcdMemorySpaceLock
  released := h'.released.trans h.released
  promotions := h.promotions.trans h'.promotions

lemma Outer.halts (h : Outer s s') (h' : Halts s' f s'') : Halts s f s'' :=
  ⟨h'.released.trans h.released, h'.failure⟩

/-- Each range that is promoted is drained from the stack before the next. The GCD lock is held, so
the drain does not promote. -/
lemma promoteLoop_spec (done rest : List GcdMapEntry) (promoted : Bool) (h : Inv cfg s)
    (hgcd : s.mGcdMemorySpaceMap = done ++ rest) (hdone : ∀ x ∈ done, untested cfg x = false)
    (hs : s.mFreeMapStack = 0) (hdep : s.mMapDepth = 0) (hlock : s.mGcdMemorySpaceLock = true) :
    Ends (promoteLoop cfg (coreFreeMemoryMapStack cfg) rest done.length promoted s)
      (fun r s' => Inv cfg s' ∧ Outer s s' ∧ s'.mMapDepth = 0 ∧
        (∀ x ∈ s'.mGcdMemorySpaceMap, untested cfg x = false) ∧
        (r = true → promoted = true ∨ ∃ x ∈ rest, untested cfg x = true))
      (Halts s) := by
  induction rest generalizing s done promoted with
  | nil =>
    refine ends_pure ⟨h, (Frame.refl s).outer, hdep, ?_, .inl⟩
    rw [hgcd]
    simpa using hdone
  | cons g rest ih =>
    have hsize : maxMapDepth = 6 := rfl
    refine ends_ite (fun hg => ?_) fun hg => ?_
    · refine ends_bind (ends_modify (ends_bind ((promoteOne_spec h hgcd hg).mono
        (fun _ s₁ hw => ?_) fun f s₁ hst => hst.halts (.inl (by omega)))))
      obtain ⟨h₁, hnear, -, -, hdep₁, hgcd₁⟩ := hw
      refine ends_bind ((coreFreeMemoryMapStack_spec h₁ (hnear.mFreeMapStack.trans hs)
        (.inl (by omega))).mono (fun _ s₂ hq => ?_) fun f s₂ hh => hnear.outer.halts hh)
      have hloc₁ : s₁.mGcdMemorySpaceLock = true := hnear.mGcdMemorySpaceLock.trans hlock
      have hgcd₂ := (hq.frame.gcdMap hloc₁).trans hgcd₁
      have hout := hnear.outer.trans hq.frame.outer
      have hlen : done.length + 1 =
          (done ++ [promoteEntry cfg.gDxeCoreImageHandle g]).length := by simp
      rw [hlen]
      refine (ih _ true hq.inv (by simp [hgcd₂]) ?_ (hout.mFreeMapStack.trans hs) hq.depth
        (hout.mGcdMemorySpaceLock.trans hlock)).mono (fun r s₃ hr => ?_)
        fun f s₃ hh => hout.halts hh
      · grind [List.mem_singleton.mp, untested_promoteEntry]
      · obtain ⟨h₃, hout₃, hdep₃, hnone, -⟩ := hr
        exact ⟨h₃, hout.trans hout₃, hdep₃, hnone, fun _ => .inr ⟨g, List.mem_cons_self, hg⟩⟩
    · have hlen : done.length + 1 = (done ++ [g]).length := by simp
      grind

lemma promote_spec (h : Inv cfg s) (hs : s.mFreeMapStack = 0) (hdep : s.mMapDepth = 0) :
    Ends (promoteMemoryResource cfg (coreFreeMemoryMapStack cfg) s)
      (fun r s' => Quiet cfg s s' ∧ (∀ x ∈ s'.mGcdMemorySpaceMap, untested cfg x = false) ∧
        (r = true → ∃ x ∈ s.mGcdMemorySpaceMap, untested cfg x = true))
      (Halts s) := by
  refine ends_bind (ends_bind (ends_get (ends_bind (ends_assertThat (fun hlock => ?_)
    (Halts.assert (Frame.refl s))))))
  refine ends_modify (ends_bind (ends_modify (ends_bind (ends_get ?_))))
  have hobs : observePromotion cfg { s with mGcdMemorySpaceLock := true } =
      { s with mGcdMemorySpaceLock := true } := by
    rw [observePromotion, if_neg (not_not.mpr hs)]
  rw [hobs]
  have h₁ : Inv cfg { s with mGcdMemorySpaceLock := true } := ⟨h.map, h.depth_lt, h.untested⟩
  refine ends_bind ((promoteLoop_spec [] s.mGcdMemorySpaceMap false h₁ rfl (by simp) hs hdep
    rfl).mono (fun r s₂ hr => ?_) fun f s₂ hh => ⟨hh.released, hh.failure⟩)
  obtain ⟨h₂, hout, hdep₂, hnone, hr⟩ := hr
  refine ends_bind (ends_bind (ends_get (ends_bind (ends_assertThat (fun _ => ?_)
    ⟨hout.released, .inl rfl⟩))))
  refine ends_modify (ends_pure ⟨⟨⟨h₂.map, h₂.depth_lt, h₂.untested⟩, ⟨hout.mFreeMapStack,
    hout.gMemoryLock, hlock.symm, hout.released, hout.promotions, ?_⟩, hdep₂⟩, hnone, ?_⟩)
  · intro htrue
    rw [hlock] at htrue
    cases htrue
  · intro htrue
    simpa using hr htrue

/-! ### Allocation -/

lemma Quiet.refl (h : Inv cfg s) (hdep : s.mMapDepth = 0) : Quiet cfg s s :=
  ⟨h, Frame.refl s, hdep⟩

lemma find_spec {maxAddress noPages alignment : ℕ} (h : Inv cfg s) (hs : s.mFreeMapStack = 0)
    (hdep : s.mMapDepth = 0) :
    Ends (findFreePages cfg (coreFreeMemoryMapStack cfg) maxAddress noPages type alignment 2 s)
      (fun _ s' => Quiet cfg s s') (Halts s) := by
  refine findFreePages_spec (I := Quiet cfg s) (fun t base ht => ?_) (fun t ht => ?_)
    (Quiet.refl h hdep)
  · obtain ⟨hinv, hf, hd⟩ := ht
    exact ⟨⟨hinv.map, hinv.depth_lt, hinv.untested⟩, ⟨hf.mFreeMapStack, hf.gMemoryLock,
      hf.mGcdMemorySpaceLock, hf.released, hf.promotions, hf.gcdMap⟩, hd⟩
  · refine (promote_spec ht.inv (ht.frame.mFreeMapStack.trans hs) ht.depth).mono
      (fun r t' hp => ⟨ht.trans hp.1, hp.2⟩) fun f t' hh => hh.trans ht.frame

lemma allocatePoolPages_spec {alignment : ℕ} (h : Inv cfg s) (hs : s.mFreeMapStack = 0)
    (hdep : s.mMapDepth = 0) :
    Ends (coreAllocatePoolPages cfg (coreFreeMemoryMapStack cfg) type numberOfPages alignment s)
      (fun _ s' => Quiet cfg s s') (Halts s) := by
  refine ends_bind ((find_spec h hs hdep).imp fun start s₁ hq => ends_bind ?_)
  refine ends_ite (fun _ => ends_pure (ends_pure hq)) fun _ => ?_
  refine ends_bind ((convertEx_spec hq.inv (hq.frame.mFreeMapStack.trans hs) hq.depth).mono
    (fun _ s₂ hc => ends_pure (ends_pure (hq.trans hc))) fun f s₂ hh => hh.trans hq.frame)

end Edk2.Page
