import Edk2.Gcd.Map

/-!
# The GCD services

`CoreConvertSpace`, `CoreAllocateSpace` and the services of the DXE services table built on
them. Two things are left to the environment of a call: whether the pool has memory for the two
pad entries, and the answer of `gCpu->SetMemoryAttributes`.
-/

namespace Edk2.Gcd

/-- The operation codes of `Gcd.h`. -/
inductive GcdOperation
  | addMemory
  | allocateMemory
  | freeMemory
  | removeMemory
  | setAttributesMemory
  | setCapabilitiesMemory
  | addIo
  | allocateIo
  | freeIo
  | removeIo
deriving DecidableEq, Repr

/-- `(Operation & GCD_MEMORY_SPACE_OPERATION) != 0`. -/
def GcdOperation.onMemory : GcdOperation → Bool
  | .addMemory | .allocateMemory | .freeMemory | .removeMemory
  | .setAttributesMemory | .setCapabilitiesMemory => true
  | .addIo | .allocateIo | .freeIo | .removeIo => false

/-- What a call finds in its environment. -/
structure Environment where
  /-- `CoreAllocateGcdMapEntry` succeeds. -/
  padsAvailable : Bool := true
  /-- `EFI_NOT_AVAILABLE_YET` while `gCpu` is `NULL`, else the status of `SetMemoryAttributes`. -/
  setMemoryAttributes : ℕ → ℕ → BitVec 64 → EfiStatus := fun _ _ _ => .success

/-- `mGcdMemorySpaceMap` and `mGcdIoSpaceMap`. -/
structure GcdState where
  mGcdMemorySpaceMap : List GcdMapEntry
  mGcdIoSpaceMap : List GcdMapEntry
deriving DecidableEq, Repr

/-- The map an operation works on. -/
def GcdState.map (s : GcdState) (operation : GcdOperation) : List GcdMapEntry :=
  if operation.onMemory then s.mGcdMemorySpaceMap else s.mGcdIoSpaceMap

def GcdState.setMap (s : GcdState) (operation : GcdOperation) (map : List GcdMapEntry) :
    GcdState :=
  if operation.onMemory then { s with mGcdMemorySpaceMap := map }
  else { s with mGcdIoSpaceMap := map }

/-- The entry that `CoreInitializeGcdServices` makes from either template. -/
def initialEntry (addressBits : ℕ) : GcdMapEntry where
  baseAddress := 0
  endAddress := 2 ^ addressBits - 1
  capabilities := 0
  attributes := 0
  gcdMemoryType := .nonExistent
  gcdIoType := .nonExistent
  imageHandle := 0
  deviceHandle := 0

/-- The maps that `CoreInitializeGcdServices` starts from, before it enters the resources of the
HOB list through the services below. Both sizes come from the CPU HOB, and `LShiftU64` asserts
that they are less than 64. -/
def coreInitializeGcdServices (sizeOfMemorySpace sizeOfIoSpace : ℕ) : Except Halt GcdState :=
  if sizeOfMemorySpace ≥ 64 ∨ sizeOfIoSpace ≥ 64 then .error .assert
  else .ok
    { mGcdMemorySpaceMap := [initialEntry sizeOfMemorySpace]
      mGcdIoSpaceMap := [initialEntry sizeOfIoSpace] }

/-! ### CoreConvertSpace -/

def exclusiveMemoryAttributes : BitVec 64 :=
  efiMemoryUc ||| efiMemoryWc ||| efiMemoryWt ||| efiMemoryWb ||| efiMemoryWp ||| efiMemoryUce

def nonexclusiveMemoryAttributes : BitVec 64 := efiMemoryXp ||| efiMemoryRp ||| efiMemoryRo

/-- The attributes that a request without CPU attributes keeps. -/
def cpuMemoryAttributes : BitVec 64 := exclusiveMemoryAttributes ||| nonexclusiveMemoryAttributes

def converToCpuArchAttributes (attributes : BitVec 64) : BitVec 64 :=
  let cpuArchAttributes := attributes &&& nonexclusiveMemoryAttributes
  if attributes &&& efiMemoryUc = efiMemoryUc then cpuArchAttributes ||| efiMemoryUc
  else if attributes &&& efiMemoryWc = efiMemoryWc then cpuArchAttributes ||| efiMemoryWc
  else if attributes &&& efiMemoryWt = efiMemoryWt then cpuArchAttributes ||| efiMemoryWt
  else if attributes &&& efiMemoryWb = efiMemoryWb then cpuArchAttributes ||| efiMemoryWb
  else if attributes &&& efiMemoryUce = efiMemoryUce then cpuArchAttributes ||| efiMemoryUce
  else if attributes &&& efiMemoryWp = efiMemoryWp then cpuArchAttributes ||| efiMemoryWp
  else cpuArchAttributes

/-- The arguments of `CoreConvertSpace` after `Operation`. -/
structure ConvertRequest where
  gcdMemoryType : GcdMemoryType := .nonExistent
  gcdIoType : GcdIoType := .nonExistent
  baseAddress : ℕ
  length : ℕ
  capabilities : BitVec 64 := 0
  attributes : BitVec 64 := 0
deriving DecidableEq, Repr

/-- The verification of one entry, before anything is changed. -/
def convertCheckEntry (operation : GcdOperation) (r : ConvertRequest) (entry : GcdMapEntry) :
    EfiStatus :=
  match operation with
  | .addMemory =>
    if entry.gcdMemoryType ≠ .nonExistent ∨ entry.imageHandle ≠ 0 then .accessDenied
    else .success
  | .addIo =>
    if entry.gcdIoType ≠ .nonExistent ∨ entry.imageHandle ≠ 0 then .accessDenied
    else .success
  | .freeMemory | .freeIo =>
    if entry.imageHandle = 0 then .notFound else .success
  | .removeMemory =>
    if entry.gcdMemoryType = .nonExistent then .notFound
    else if entry.imageHandle ≠ 0 then .accessDenied
    else .success
  | .removeIo =>
    if entry.gcdIoType = .nonExistent then .notFound
    else if entry.imageHandle ≠ 0 then .accessDenied
    else .success
  | .setAttributesMemory =>
    if r.attributes &&& efiMemoryRuntime ≠ 0 ∧
        (r.baseAddress % efiPageSize ≠ 0 ∨ r.length % efiPageSize ≠ 0) then .invalidParameter
    else if entry.capabilities &&& r.attributes ≠ r.attributes then .unsupported
    else .success
  | .setCapabilitiesMemory =>
    if r.baseAddress % efiPageSize ≠ 0 ∨ r.length % efiPageSize ≠ 0 then .invalidParameter
    else if r.capabilities &&& entry.attributes ≠ entry.attributes then .unsupported
    else .success
  | .allocateMemory | .allocateIo => .success

/-- The status of the first entry that fails its check. -/
def checkEntries (check : GcdMapEntry → EfiStatus) : List GcdMapEntry → EfiStatus
  | [] => .success
  | entry :: rest => if (check entry).isError then check entry else checkEntries check rest

/-- The rewriting of one entry. The first component is the local variable `Attributes`, which
keeps what earlier entries have added to it. -/
def convertEntry (operation : GcdOperation) (r : ConvertRequest) (cpuArchAttributes : BitVec 64) :
    Update := fun attributes entry =>
  match operation with
  | .addMemory =>
    (attributes,
      { entry with
        gcdMemoryType := r.gcdMemoryType
        capabilities :=
          if r.gcdMemoryType = .memoryMappedIo then
            r.capabilities ||| efiMemoryRuntime ||| efiMemoryPortIo
          else r.capabilities ||| efiMemoryRuntime })
  | .addIo => (attributes, { entry with gcdIoType := r.gcdIoType })
  | .freeMemory | .freeIo => (attributes, { entry with imageHandle := 0, deviceHandle := 0 })
  | .removeMemory => (attributes, { entry with gcdMemoryType := .nonExistent, capabilities := 0 })
  | .removeIo => (attributes, { entry with gcdIoType := .nonExistent })
  | .setAttributesMemory =>
    let attributes :=
      if cpuArchAttributes = 0 then attributes ||| (entry.attributes &&& cpuMemoryAttributes)
      else attributes
    (attributes, { entry with attributes := attributes })
  | .setCapabilitiesMemory => (attributes, { entry with capabilities := r.capabilities })
  | .allocateMemory | .allocateIo => (attributes, entry)

/-- The CPU attributes that the call programs: none unless it sets attributes. -/
def cpuArchAttributesOf (operation : GcdOperation) (r : ConvertRequest) : BitVec 64 :=
  if operation = .setAttributesMemory then converToCpuArchAttributes r.attributes else 0

/-- The status of the call to `gCpu->SetMemoryAttributes`, if it is made. -/
def programCpu (env : Environment) (operation : GcdOperation) (r : ConvertRequest) : EfiStatus :=
  if cpuArchAttributesOf operation r ≠ 0 then
    env.setMemoryAttributes r.baseAddress r.length (cpuArchAttributesOf operation r)
  else .success

/-- `CoreConvertSpace` on the map it selects. -/
def coreConvertMap (env : Environment) (operation : GcdOperation) (r : ConvertRequest)
    (map : List GcdMapEntry) : Except Halt (EfiStatus × List GcdMapEntry) :=
  if r.length = 0 then .ok (.invalidParameter, map)
  else
    match coreSearchGcdMapEntry r.baseAddress r.length map with
    | none => .ok (.unsupported, map)
    | some (startLink, endLink) =>
      let status := checkEntries (convertCheckEntry operation r) (slice map startLink endLink).2.1
      if status.isError then .ok (status, map)
      else if ¬ env.padsAvailable then .ok (.outOfResources, map)
      else if (programCpu env operation r).isError then .ok (programCpu env operation r, map)
      else
        (rewriteRange (convertEntry operation r (cpuArchAttributesOf operation r)) r.attributes
          r.baseAddress r.length startLink endLink map).bind fun map' => .ok (.success, map')

lemma coreConvertMap_cases {env : Environment} {operation : GcdOperation} {r : ConvertRequest}
    {map map' : List GcdMapEntry} {status : EfiStatus}
    (h : coreConvertMap env operation r map = .ok (status, map')) :
    (status.isError ∧ map' = map) ∨
    (status = .success ∧ ∃ startLink endLink,
      coreSearchGcdMapEntry r.baseAddress r.length map = some (startLink, endLink) ∧
      ¬ (checkEntries (convertCheckEntry operation r) (slice map startLink endLink).2.1).isError ∧
      rewriteRange (convertEntry operation r (cpuArchAttributesOf operation r)) r.attributes
        r.baseAddress r.length startLink endLink map = .ok map') := by
  unfold coreConvertMap at h
  by_cases hlen : r.length = 0
  · rw [if_pos hlen] at h
    cases h
    exact .inl ⟨rfl, rfl⟩
  rw [if_neg hlen] at h
  cases hs : coreSearchGcdMapEntry r.baseAddress r.length map with
  | none =>
    simp only [hs] at h
    cases h
    exact .inl ⟨rfl, rfl⟩
  | some links =>
    obtain ⟨i, k⟩ := links
    simp only [hs] at h
    by_cases hche : (checkEntries (convertCheckEntry operation r) (slice map i k).2.1).isError
    · grind
    rw [if_neg hche] at h
    by_cases hpads : env.padsAvailable = true
    swap
    · rw [if_pos hpads] at h
      cases h
      exact .inl ⟨rfl, rfl⟩
    rw [if_neg (not_not.mpr hpads)] at h
    by_cases hcpu : (programCpu env operation r).isError
    · rw [if_pos hcpu] at h
      cases h
      exact .inl ⟨hcpu, rfl⟩
    rw [if_neg hcpu] at h
    cases hrw : rewriteRange (convertEntry operation r (cpuArchAttributesOf operation r))
      r.attributes r.baseAddress r.length i k map with
    | error _ =>
      rw [hrw] at h
      cases h
    | ok map'' =>
      rw [hrw] at h
      cases h
      exact .inr ⟨rfl, i, k, rfl, hche, hrw⟩

def coreConvertSpace (env : Environment) (operation : GcdOperation) (r : ConvertRequest)
    (s : GcdState) : Except Halt (EfiStatus × GcdState) :=
  (coreConvertMap env operation r (s.map operation)).bind fun (status, map) =>
    .ok (status, s.setMap operation map)

/-! ### CoreAllocateSpace -/

/-- `EFI_GCD_ALLOCATE_TYPE`; every value from `EfiGcdMaxAllocateType` on is `maxAllocateType`. -/
inductive GcdAllocateType
  | anySearchBottomUp
  | maxAddressSearchBottomUp
  | address
  | anySearchTopDown
  | maxAddressSearchTopDown
  | maxAllocateType
deriving DecidableEq, Repr

def GcdAllocateType.topDown : GcdAllocateType → Bool
  | .anySearchTopDown | .maxAddressSearchTopDown => true
  | _ => false

def GcdAllocateType.bounded : GcdAllocateType → Bool
  | .maxAddressSearchBottomUp | .maxAddressSearchTopDown => true
  | _ => false

/-- The arguments of `CoreAllocateSpace` after `Operation`; `baseAddress` is `none` for a `NULL`
pointer, else the value it points to. -/
structure AllocateRequest where
  gcdAllocateType : GcdAllocateType
  gcdMemoryType : GcdMemoryType := .nonExistent
  gcdIoType : GcdIoType := .nonExistent
  alignment : ℕ
  length : ℕ
  baseAddress : Option ℕ
  imageHandle : Handle
  deviceHandle : Handle := 0
deriving DecidableEq, Repr

def coreAllocateSpaceCheckEntry (operation : GcdOperation) (r : AllocateRequest)
    (entry : GcdMapEntry) : EfiStatus :=
  if entry.imageHandle ≠ 0 then .notFound
  else
    match operation with
    | .allocateMemory => if entry.gcdMemoryType ≠ r.gcdMemoryType then .notFound else .success
    | .allocateIo => if entry.gcdIoType ≠ r.gcdIoType then .notFound else .success
    | _ => .unsupported

/-- The argument checks that come before the lock is taken. -/
def allocateParameters (r : AllocateRequest) : EfiStatus :=
  if r.gcdAllocateType = .maxAllocateType then .invalidParameter
  else if r.gcdMemoryType = .maximum then .invalidParameter
  else if r.gcdIoType = .maximum then .invalidParameter
  else if r.baseAddress = none then .invalidParameter
  else if r.imageHandle = 0 then .invalidParameter
  else if r.alignment ≥ 64 then .notFound
  else if r.length = 0 then .invalidParameter
  else .success

/-- What one entry offers to a search: nothing, the end of the search, or a base address. -/
inductive Candidate
  | skip
  | notFound (baseAddress : ℕ)
  | range (baseAddress : ℕ)
deriving DecidableEq, Repr

/-- The computation of `*BaseAddress` from one suitable entry; `current` is its value so far. -/
def allocateCandidate (r : AllocateRequest) (maxAddress current : ℕ) (entry : GcdMapEntry) :
    Candidate :=
  if r.gcdAllocateType.topDown then
    if u64 (entry.baseAddress + r.length) > maxAddress then .skip
    else if r.length > u64 (entry.endAddress + 1) then .notFound current
    else
      let top := if entry.endAddress > maxAddress then maxAddress else entry.endAddress
      .range (alignDown (u64 (top + 1 + 2 ^ 64 - r.length)) r.alignment)
  else
    let baseAddress := alignDown (u64 (entry.baseAddress + (2 ^ r.alignment - 1))) r.alignment
    if rangeEnd baseAddress r.length > maxAddress then .notFound baseAddress
    else .range baseAddress

/-- The end of the search: the value left in `*BaseAddress` and, if found, the links. -/
structure SearchResult where
  baseAddress : ℕ
  links : Option (ℕ × ℕ)
deriving DecidableEq, Repr

/-- The link after `index` in the direction of the search; `none` is the list head. -/
def nextLink (topDown : Bool) (count index : ℕ) : Option ℕ :=
  if topDown then (if index = 0 then none else some (index - 1))
  else (if index + 1 < count then some (index + 1) else none)

/-- The position of the first entry in the slice that fails its check. -/
def firstFailure (check : GcdMapEntry → EfiStatus) (map : List GcdMapEntry)
    (startLink endLink : ℕ) : Option ℕ :=
  ((slice map startLink endLink).2.1.findIdx? fun entry => (check entry).isError).map
    (· + startLink)

/-- The loop of `CoreAllocateSpace` over the candidates. Where an iteration moves to depends only on
where it starts, so a loop that has not ended after `fuel = length` iterations never ends. -/
def allocateLoop (operation : GcdOperation) (r : AllocateRequest) (map : List GcdMapEntry)
    (maxAddress : ℕ) : ℕ → Option ℕ → ℕ → Except Halt SearchResult
  | _, none, current => .ok { baseAddress := current, links := none }
  | 0, some _, _ => .error .loop
  | fuel + 1, some index, current =>
    match map[index]? with
    | none => .ok { baseAddress := current, links := none }
    | some entry =>
      let next := nextLink r.gcdAllocateType.topDown map.length index
      if (coreAllocateSpaceCheckEntry operation r entry).isError then
        allocateLoop operation r map maxAddress fuel next current
      else
        match allocateCandidate r maxAddress current entry with
        | .skip => allocateLoop operation r map maxAddress fuel next current
        | .notFound baseAddress => .ok { baseAddress := baseAddress, links := none }
        | .range baseAddress =>
          match coreSearchGcdMapEntry baseAddress r.length map with
          | none => .ok { baseAddress := baseAddress, links := none }
          | some (startLink, endLink) =>
            match firstFailure (coreAllocateSpaceCheckEntry operation r) map startLink endLink with
            | none => .ok { baseAddress := baseAddress, links := some (startLink, endLink) }
            | some subLink =>
              allocateLoop operation r map maxAddress fuel (some subLink) baseAddress

/-- The search of `CoreAllocateSpace` for the types other than `EfiGcdAllocateAddress`. -/
def allocateSearch (operation : GcdOperation) (r : AllocateRequest) (map : List GcdMapEntry)
    (baseAddress : ℕ) : Except Halt SearchResult :=
  let maxAddress :=
    if r.gcdAllocateType.bounded then baseAddress
    else (map.getLast?.map GcdMapEntry.endAddress).getD 0
  let first := if r.gcdAllocateType.topDown then map.length - 1 else 0
  allocateLoop operation r map maxAddress map.length
    (if map = [] then none else some first) baseAddress

/-- `EfiGcdAllocateAddress`: the status and the links of the requested range. -/
def allocateAddress (operation : GcdOperation) (r : AllocateRequest) (map : List GcdMapEntry)
    (baseAddress : ℕ) : Except EfiStatus (ℕ × ℕ) :=
  if baseAddress % 2 ^ r.alignment ≠ 0 then .error .notFound
  else
    match coreSearchGcdMapEntry baseAddress r.length map with
    | none => .error .notFound
    | some (startLink, endLink) =>
      let status :=
        checkEntries (coreAllocateSpaceCheckEntry operation r) (slice map startLink endLink).2.1
      if status.isError then .error status else .ok (startLink, endLink)

/-- The rewriting of one allocated entry. -/
def allocateEntry (r : AllocateRequest) : Update := fun attributes entry =>
  (attributes, { entry with imageHandle := r.imageHandle, deviceHandle := r.deviceHandle })

/-- What `CoreAllocateSpace` returns; `baseAddress` is the value left in `*BaseAddress`. -/
structure AllocateResult where
  status : EfiStatus
  baseAddress : Option ℕ
  map : List GcdMapEntry
deriving DecidableEq, Repr

/-- The end of `CoreAllocateSpace`, once a range has been chosen. -/
def allocateRange (env : Environment) (r : AllocateRequest) (map : List GcdMapEntry)
    (baseAddress startLink endLink : ℕ) : Except Halt AllocateResult :=
  if ¬ env.padsAvailable then
    .ok { status := .outOfResources, baseAddress := some baseAddress, map := map }
  else
    (rewriteRange (allocateEntry r) 0 baseAddress r.length startLink endLink map).bind
      fun map' => .ok { status := .success, baseAddress := some baseAddress, map := map' }

/-- `CoreAllocateSpace` on the map it selects. -/
def coreAllocateMap (env : Environment) (operation : GcdOperation) (r : AllocateRequest)
    (map : List GcdMapEntry) : Except Halt AllocateResult :=
  if (allocateParameters r).isError then
    .ok { status := allocateParameters r, baseAddress := r.baseAddress, map := map }
  else
    let baseAddress := r.baseAddress.getD 0
    if r.gcdAllocateType = .address then
      match allocateAddress operation r map baseAddress with
      | .error status => .ok { status := status, baseAddress := r.baseAddress, map := map }
      | .ok (startLink, endLink) => allocateRange env r map baseAddress startLink endLink
    else
      (allocateSearch operation r map baseAddress).bind fun found =>
        match found.links with
        | none => .ok { status := .notFound, baseAddress := some found.baseAddress, map := map }
        | some (startLink, endLink) =>
          allocateRange env r map found.baseAddress startLink endLink

lemma coreAllocateMap_cases {env : Environment} {operation : GcdOperation} {r : AllocateRequest}
    {map : List GcdMapEntry} {result : AllocateResult}
    (h : coreAllocateMap env operation r map = .ok result) :
    (result.status.isError ∧ result.map = map) ∨
    (result.status = .success ∧ ∃ b startLink endLink,
      rewriteRange (allocateEntry r) 0 b r.length startLink endLink map = .ok result.map) := by
  have hran : ∀ b i k, allocateRange env r map b i k = .ok result →
      (result.status.isError ∧ result.map = map) ∨
      (result.status = .success ∧ ∃ b startLink endLink,
        rewriteRange (allocateEntry r) 0 b r.length startLink endLink map = .ok result.map) := by
    intro b i k h
    unfold allocateRange at h
    by_cases hpads : env.padsAvailable = true
    swap
    · rw [if_pos hpads] at h
      cases h
      exact .inl ⟨rfl, rfl⟩
    rw [if_neg (not_not.mpr hpads)] at h
    cases hrw : rewriteRange (allocateEntry r) 0 b r.length i k map with
    | error _ =>
      rw [hrw] at h
      cases h
    | ok map' =>
      rw [hrw] at h
      cases h
      exact .inr ⟨rfl, b, i, k, hrw⟩
  simp only [coreAllocateMap] at h
  split_ifs at h with hp
  · cases h
    exact .inl ⟨hp, rfl⟩
  · rcases ha : allocateAddress operation r map (r.baseAddress.getD 0) with status | ⟨i, k⟩
    · simp only [ha] at h
      cases h
      refine .inl ⟨?_, rfl⟩
      simp only [allocateAddress] at ha
      split_ifs at ha
      · cases ha
        rfl
      cases hs : coreSearchGcdMapEntry (r.baseAddress.getD 0) r.length map with
      | none =>
        simp only [hs] at ha
        cases ha
        rfl
      | some links =>
        grind
    · simp only [ha] at h
      exact hran _ _ _ h
  · cases hf : allocateSearch operation r map (r.baseAddress.getD 0) with
    | error _ =>
      rw [hf] at h
      cases h
    | ok found =>
      rw [hf] at h
      simp only [Except.bind] at h
      rcases hl : found.links with _ | ⟨i, k⟩
      · simp only [hl] at h
        cases h
        exact .inl ⟨rfl, rfl⟩
      · simp only [hl] at h
        exact hran _ _ _ h

def coreAllocateSpace (env : Environment) (operation : GcdOperation) (r : AllocateRequest)
    (s : GcdState) : Except Halt (EfiStatus × Option ℕ × GcdState) :=
  (coreAllocateMap env operation r (s.map operation)).bind fun result =>
    .ok (result.status, result.baseAddress, s.setMap operation result.map)

/-! ### The memory space services -/

def coreInternalAddMemorySpace (env : Environment) (gcdMemoryType : GcdMemoryType)
    (baseAddress length : ℕ) (capabilities : BitVec 64) (s : GcdState) :
    Except Halt (EfiStatus × GcdState) :=
  if gcdMemoryType = .nonExistent ∨ gcdMemoryType = .maximum then .ok (.invalidParameter, s)
  else
    coreConvertSpace env .addMemory
      { gcdMemoryType := gcdMemoryType, baseAddress := baseAddress, length := length
        capabilities := capabilities } s

/-- `CoreAllocateMemorySpace`; the I/O type of the request is not used. -/
def coreAllocateMemorySpace (env : Environment) (r : AllocateRequest) (s : GcdState) :
    Except Halt (EfiStatus × Option ℕ × GcdState) :=
  coreAllocateSpace env .allocateMemory { r with gcdIoType := .nonExistent } s

def coreFreeMemorySpace (env : Environment) (baseAddress length : ℕ) (s : GcdState) :
    Except Halt (EfiStatus × GcdState) :=
  coreConvertSpace env .freeMemory { baseAddress := baseAddress, length := length } s

def coreRemoveMemorySpace (env : Environment) (baseAddress length : ℕ) (s : GcdState) :
    Except Halt (EfiStatus × GcdState) :=
  coreConvertSpace env .removeMemory { baseAddress := baseAddress, length := length } s

def coreSetMemorySpaceAttributes (env : Environment) (baseAddress length : ℕ)
    (attributes : BitVec 64) (s : GcdState) : Except Halt (EfiStatus × GcdState) :=
  coreConvertSpace env .setAttributesMemory
    { baseAddress := baseAddress, length := length, attributes := attributes } s

/-- The conversion that `CoreSetMemorySpaceCapabilities` makes in the GCD map. -/
def coreSetMemorySpaceCapabilities (env : Environment) (baseAddress length : ℕ)
    (capabilities : BitVec 64) (s : GcdState) : Except Halt (EfiStatus × GcdState) :=
  coreConvertSpace env .setCapabilitiesMemory
    { baseAddress := baseAddress, length := length, capabilities := capabilities } s

/-! ### Promotion of untested memory -/

/-- `MAX_ALLOC_ADDRESS` of X64. -/
abbrev maxAllocAddress : ℕ := 0xFFFFFFFFFFFFFFFF

/-- The entries that `PromoteMemoryResource` takes: initialized but untested reserved memory. -/
def promotable (entry : GcdMapEntry) : Bool :=
  entry.gcdMemoryType = .reserved ∧ entry.endAddress < maxAllocAddress ∧
    entry.capabilities &&& (efiMemoryPresent ||| efiMemoryInitialized ||| efiMemoryTested) =
      efiMemoryPresent ||| efiMemoryInitialized

/-- What `PromoteMemoryResource` makes of such an entry. -/
def promoteEntry (gDxeCoreImageHandle : Handle) (entry : GcdMapEntry) : GcdMapEntry :=
  { entry with
    gcdMemoryType :=
      if entry.capabilities &&& efiMemoryMoreReliable = efiMemoryMoreReliable then .moreReliable
      else .systemMemory
    capabilities := entry.capabilities ||| efiMemoryTested
    imageHandle := gDxeCoreImageHandle
    deviceHandle := 0 }

end Edk2.Gcd
