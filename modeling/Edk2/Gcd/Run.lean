import Edk2.Gcd.Space
import Edk2.Gcd.Rewrite

/-!
# What one GCD call does to its map

On a coalesced tiling of the address space, a call of `CoreConvertSpace` or `CoreAllocateSpace`
whose range does not wrap returns. A failed call changes nothing; a successful one leaves a
coalesced tiling and rewrites the addresses of its range only.
-/

namespace Edk2.Gcd

open Segment

/-- A GCD map of an address space of `bits` bits: sorted nonempty entries that tile it, with no
two equal neighbours. -/
structure WellFormed (bits : ℕ) (map : List GcdMapEntry) : Prop where
  tiles : Tiles 0 map (2 ^ bits)
  coalesced : Coalesced map

/-- `map'` is `map` with the fields rewritten at the addresses from `b` to `b + n - 1`. -/
def RangeRewritten (u : Update) (w : BitVec 64) (b n : ℕ) (map map' : List GcdMapEntry) : Prop :=
  ∀ a, labelAt map' a =
    if b ≤ a ∧ a < b + n then
      (labelAt map a).map fun f => (u (attributesAt u w (coveredEntries b n map) a) f).2
    else labelAt map a

variable {u : Update} {w : BitVec 64} {b n t i k : ℕ} {map map' : List GcdMapEntry}
  {env : Environment} {o : GcdOperation} {e : GcdMapEntry}

namespace WellFormed

lemma sorted (h : WellFormed b map) : map.Pairwise fun e f => e.endAddress < f.baseAddress :=
  h.tiles.pairwise

lemma nonempty (h : WellFormed b map) : ∀ e ∈ map, e.baseAddress ≤ e.endAddress :=
  fun e he => (h.tiles.bounds e he).2.1

end WellFormed

lemma wellFormed_initial (bits : ℕ) : WellFormed bits [initialEntry bits] := by
  have hpos := Nat.two_pow_pos bits
  refine ⟨⟨rfl, Nat.zero_le _, ?_⟩, List.isChain_singleton _⟩
  simp only [hi_entry, initialEntry, tiles_nil]
  omega

lemma rewriteRange_wellFormed {bits : ℕ} (hbits : bits < 64) (h : WellFormed bits map)
    (hn : 0 < n) (hwrap : b + n ≤ 2 ^ 64) (hs : coreSearchGcdMapEntry b n map = some (i, k)) :
    ∃ map', rewriteRange u w b n i k map = .ok map' ∧ WellFormed bits map' ∧
      RangeRewritten u w b n map map' := by
  have ht : 2 ^ bits ≤ 2 ^ 64 := Nat.pow_le_pow_right (by decide) hbits.le
  rcases coreSearchGcdMapEntry_spec h.tiles b n with ⟨hnone, -⟩ | ⟨pre, mid, post, hcov, hsome⟩
  · rw [hs] at hnone
    cases hnone
  · have hcove : coveredEntries b n map = mid := by
      rw [coveredEntries, hsome, hcov.split]
      simp only [slice_append pre mid post hcov.ne_nil]
    rw [hs, Option.some.injEq, Prod.mk.injEq] at hsome
    obtain ⟨map', hrw, htile, hco, hlab⟩ :=
      rewriteRange_spec (u := u) (w := w) hn hwrap ht h.tiles h.coalesced hcov
    refine ⟨map', by rw [hsome.1, hsome.2]; exact hrw, ⟨htile, hco⟩, ?_⟩
    rw [RangeRewritten, hcove]
    exact hlab

lemma coreConvertMap_spec (env : Environment) {bits : ℕ} (hbits : bits < 64) (h : WellFormed bits map)
    (r : ConvertRequest) (hwrap : r.baseAddress + r.length ≤ 2 ^ 64) :
    ∃ status map', coreConvertMap env o r map = .ok (status, map') ∧
      WellFormed bits map' ∧ (status.isError → map' = map) ∧
      (¬ status.isError →
        RangeRewritten (convertEntry o r (cpuArchAttributesOf o r)) r.attributes
          r.baseAddress r.length map map') := by
  -- every way out but the last one fails with the map as it was
  have hfail : ∀ status : EfiStatus, status.isError = true →
      coreConvertMap env o r map = .ok (status, map) →
      ∃ status map', coreConvertMap env o r map = .ok (status, map') ∧
        WellFormed bits map' ∧ (status.isError → map' = map) ∧
        (¬ status.isError →
          RangeRewritten (convertEntry o r (cpuArchAttributesOf o r)) r.attributes
            r.baseAddress r.length map map') :=
    fun status hs heq => ⟨status, map, heq, h, fun _ => rfl, fun hns => absurd hs hns⟩
  by_cases hlen : r.length = 0
  · exact hfail .invalidParameter rfl (by simp [coreConvertMap, hlen])
  rcases hs : coreSearchGcdMapEntry r.baseAddress r.length map with _ | ⟨i, k⟩
  · exact hfail .unsupported rfl (by simp [coreConvertMap, hlen, hs])
  by_cases hche : (checkEntries (convertCheckEntry o r) (slice map i k).2.1).isError
  · grind [coreConvertMap]
  by_cases hpads : env.padsAvailable = true
  swap
  · exact hfail .outOfResources rfl (by simp [coreConvertMap, hlen, hs, hche, hpads])
  by_cases hcpu : (programCpu env o r).isError
  · grind [coreConvertMap]
  obtain ⟨map', hrw, hwf, hch⟩ := rewriteRange_wellFormed
    (u := convertEntry o r (cpuArchAttributesOf o r)) (w := r.attributes)
    hbits h (Nat.pos_of_ne_zero hlen) hwrap hs
  refine ⟨.success, map', ?_, hwf, fun hne => absurd hne (by decide), fun _ => hch⟩
  simp [coreConvertMap, hlen, hs, hche, hpads, hcpu, hrw, Except.bind]

/-! ### CoreAllocateSpace -/

/-- How many entries the search can still visit. -/
def remaining (topDown : Bool) (count : ℕ) : Option ℕ → ℕ
  | none => 0
  | some index => if topDown then index + 1 else count - index

lemma remaining_nextLink (topDown : Bool) (count : ℕ) (hi : i < count) :
    remaining topDown count (nextLink topDown count i) < remaining topDown count (some i) ∧
      ∀ j ∈ nextLink topDown count i, j < count := by
  grind [nextLink, remaining]

lemma alignDown_roundUp_ge (value alignment : ℕ) :
    value ≤ alignDown (value + (2 ^ alignment - 1)) alignment := by
  simp [alignDown]
  omega

lemma allocateCandidate_bottomUp {r : AllocateRequest} {maxAddress current : ℕ}
    (hr : r.gcdAllocateType.topDown = false) (hal : r.alignment < 64)
    (he : e.baseAddress < 2 ^ 63)
    (h : allocateCandidate r maxAddress current e = .range b) : e.baseAddress ≤ b := by
  have hmask : 2 ^ r.alignment ≤ 2 ^ 63 := Nat.pow_le_pow_right (by decide) (by omega)
  have hpos := Nat.two_pow_pos r.alignment
  have hrou := alignDown_roundUp_ge e.baseAddress r.alignment
  grind [allocateCandidate, Bool.false_eq_true, u64_of_lt]

lemma allocateCandidate_topDown {r : AllocateRequest} {maxAddress current : ℕ}
    (hr : r.gcdAllocateType.topDown = true) (he : e.baseAddress ≤ e.endAddress) (hend : e.endAddress < 2 ^ 63)
    (h : allocateCandidate r maxAddress current e = .range b) :
    b + r.length ≤ e.endAddress + 1 := by
  simp only [allocateCandidate, hr, if_true] at h
  rw [u64_of_lt (by omega : e.endAddress + 1 < 2 ^ 64)] at h
  split_ifs at h with h₁ h₂ h₃
  · rw [u64_of_lt (by omega)] at h₁
    cases h
    have hle := alignDown_le (u64 (maxAddress + 1 + 2 ^ 64 - r.length)) r.alignment
    rw [u64_of_ge (by omega) (by omega)] at hle ⊢
    omega
  · cases h
    have hle := alignDown_le (u64 (e.endAddress + 1 + 2 ^ 64 - r.length)) r.alignment
    rw [u64_of_ge (by omega) (by omega)] at hle ⊢
    omega

lemma firstFailure_remaining {r : AllocateRequest} {maxAddress current : ℕ} (h : Tiles 0 map t)
    (ht : t ≤ 2 ^ 63) (hal : r.alignment < 64) (hlen : 0 < r.length)
    (he : map[i]? = some e) (hok : ¬ (coreAllocateSpaceCheckEntry o r e).isError)
    (hcand : allocateCandidate r maxAddress current e = .range b) {p q j : ℕ}
    (hs : coreSearchGcdMapEntry b r.length map = some (p, q))
    (hfail : firstFailure (coreAllocateSpaceCheckEntry o r) map p q = some j) :
    remaining r.gcdAllocateType.topDown map.length (some j) <
        remaining r.gcdAllocateType.topDown map.length (some i) ∧ j < map.length := by
  obtain ⟨hi, rfl⟩ := List.getElem?_eq_some_iff.mp he
  have hbe := h.bounds _ (List.getElem_mem hi)
  simp only [lo_entry, hi_entry] at hbe
  have hsor := List.pairwise_iff_getElem.mp h.pairwise
  rcases coreSearchGcdMapEntry_spec h b r.length with ⟨hnone, -⟩ | ⟨pre, mid, post, hcov, hsome⟩
  · rw [hs] at hnone
    cases hnone
  rw [hs, Option.some.injEq, Prod.mk.injEq] at hsome
  obtain ⟨rfl, rfl⟩ := hsome
  obtain ⟨rfl, hne, hfst, hlast⟩ := hcov
  rw [firstFailure, slice_append pre mid post hne, Option.map_eq_some_iff] at hfail
  obtain ⟨d, hd, rfl⟩ := hfail
  obtain ⟨hdlt, hderr, -⟩ := List.findIdx?_eq_some_iff_getElem.mp hd
  simp only at hdlt hderr
  have hjlt : d + pre.length < (pre ++ mid ++ post).length := by
    simp only [List.length_append]
    omega
  have hjget : (pre ++ mid ++ post)[d + pre.length] = mid[d] := by
    rw [List.getElem_append_left (by simp only [List.length_append]; omega),
      List.getElem_append_right (by omega)]
    congr 1
    omega
  -- the entry that failed is not the one the candidate came from
  have hji : d + pre.length ≠ i := by
    intro heq
    subst heq
    exact hok (hjget ▸ hderr)
  refine ⟨?_, hjlt⟩
  cases htd : r.gcdAllocateType.topDown
  · have hge := allocateCandidate_bottomUp htd hal (by omega) hcand
    have hhead : Contains (pre ++ mid ++ post)[pre.length] b := by
      refine hfst _ ?_
      rw [List.getElem_append_left (by simp only [List.length_append]; omega),
        List.getElem_append_right (by omega)]
      simp [List.head?_eq_getElem?]
    have hle : i ≤ pre.length := by
      by_contra hlt
      have := hsor pre.length i (by omega) hi (by omega)
      simp only [lo_entry, hi_entry, contains_iff] at this hhead
      omega
    simp only [remaining, Bool.false_eq_true, if_false]
    omega
  · have hle := allocateCandidate_topDown htd (by omega) (by omega) hcand
    have hlt : pre.length + mid.length - 1 < (pre ++ mid ++ post).length := by
      simp only [List.length_append]
      omega
    have htail : Contains (pre ++ mid ++ post)[pre.length + mid.length - 1]
        (rangeEnd b r.length) := by
      refine hlast _ ?_
      rw [List.getElem_append_left (by simp only [List.length_append]; omega),
        List.getElem_append_right (by omega)]
      simp [List.getLast?_eq_getElem?, show pre.length + mid.length - 1 - pre.length =
        mid.length - 1 by omega, show mid.length - 1 < mid.length by omega]
    have hend : rangeEnd b r.length = b + r.length - 1 := u64_of_lt (by omega)
    have hge : pre.length + mid.length - 1 ≤ i := by
      by_contra hgt
      have := hsor i (pre.length + mid.length - 1) hi hlt (by omega)
      simp only [lo_entry, hi_entry, contains_iff, hend] at this htail
      omega
    simp only [remaining, if_true]
    omega

/-- On a tiled map the search of `CoreAllocateSpace` ends, and what it has found is the run of
entries that covers the range it has chosen. -/
lemma allocateLoop_ok {r : AllocateRequest} {maxAddress current fuel : ℕ} {link : Option ℕ}
    (h : Tiles 0 map t) (ht : t ≤ 2 ^ 63) (hal : r.alignment < 64)
    (hlen : 0 < r.length) (hfuel : remaining r.gcdAllocateType.topDown map.length link ≤ fuel)
    (hlink : ∀ j ∈ link, j < map.length) :
    ∃ found, allocateLoop o r map maxAddress fuel link current = .ok found ∧
      ∀ p ∈ found.links, coreSearchGcdMapEntry found.baseAddress r.length map = some p := by
  induction fuel generalizing link current with
  | zero =>
    cases link with
    | none => exact ⟨_, rfl, by simp⟩
    | some j =>
      have hj := hlink j rfl
      cases htd : r.gcdAllocateType.topDown <;> simp [remaining, htd] at hfuel
      omega
  | succ fuel ih =>
    cases link with
    | none => exact ⟨_, rfl, by simp⟩
    | some j =>
      have hj := hlink j rfl
      obtain ⟨hnext, hlt⟩ := remaining_nextLink r.gcdAllocateType.topDown map.length hj
      simp only [allocateLoop, List.getElem?_eq_getElem hj]
      split_ifs with hche
      · exact ih (by omega) hlt
      cases hcand : allocateCandidate r maxAddress current map[j] with
      | skip => exact ih (by omega) hlt
      | notFound b => exact ⟨_, rfl, by simp⟩
      | range b =>
        rcases hs : coreSearchGcdMapEntry b r.length map with _ | ⟨p, q⟩
        · exact ⟨_, by simp only [hs]; rfl, by simp⟩
        rcases hf : firstFailure (coreAllocateSpaceCheckEntry o r) map p q with _ | d
        · exact ⟨_, by simp only [hs, hf]; rfl, by simp [hs]⟩
        · obtain ⟨hrem, hd⟩ := firstFailure_remaining h ht hal hlen
            (List.getElem?_eq_getElem hj) hche hcand hs hf
          simp only [hs, hf]
          exact ih (by omega) (by simpa using hd)

lemma allocateSearch_ok {r : AllocateRequest} (h : Tiles 0 map t) (ht : t ≤ 2 ^ 63)
    (hal : r.alignment < 64) (hlen : 0 < r.length) :
    ∃ found, allocateSearch o r map b = .ok found ∧
      ∀ p ∈ found.links, coreSearchGcdMapEntry found.baseAddress r.length map = some p := by
  unfold allocateSearch
  refine allocateLoop_ok h ht hal hlen ?_ ?_
  · by_cases hmap : map = []
    · simp [hmap, remaining]
    · have hpos := List.length_pos_iff.mpr hmap
      grind [remaining]
  · by_cases hmap : map = []
    · simp [hmap]
    · have hpos := List.length_pos_iff.mpr hmap
      grind

lemma allocateParameters_ok {r : AllocateRequest} (h : ¬ (allocateParameters r).isError) :
    r.alignment < 64 ∧ 0 < r.length := by
  unfold allocateParameters at h
  split_ifs at h <;> first | exact absurd rfl h | omega

/-- The base address that `CoreAllocateSpace` works on: the requested one, or the one that its
search ends with; `none` if the arguments are rejected. -/
def allocateBase (operation : GcdOperation) (r : AllocateRequest) (map : List GcdMapEntry) :
    Except Halt (Option ℕ) :=
  if (allocateParameters r).isError then .ok none
  else if r.gcdAllocateType = .address then .ok r.baseAddress
  else (allocateSearch operation r map (r.baseAddress.getD 0)).map fun found =>
    some found.baseAddress

/-- What `CoreAllocateSpace` leaves: an error and the map as it was, or a rewritten range. -/
def AllocateOk (bits : ℕ) (operation : GcdOperation) (r : AllocateRequest)
    (map : List GcdMapEntry) (result : AllocateResult) : Prop :=
  WellFormed bits result.map ∧ (result.status.isError → result.map = map) ∧
    (¬ result.status.isError → ∃ b, allocateBase operation r map = .ok (some b) ∧
      result.baseAddress = some b ∧ RangeRewritten (allocateEntry r) 0 b r.length map result.map)

lemma allocateRange_spec {bits : ℕ} (hbits : bits < 64) (h : WellFormed bits map)
    {r : AllocateRequest} (hlen : 0 < r.length) (hwrap : b + r.length ≤ 2 ^ 64)
    (hs : coreSearchGcdMapEntry b r.length map = some (i, k))
    (hbase : allocateBase o r map = .ok (some b)) :
    ∃ result, allocateRange env r map b i k = .ok result ∧
      AllocateOk bits o r map result := by
  by_cases hpads : env.padsAvailable = true
  · obtain ⟨map', hrw, hwf, hch⟩ := rewriteRange_wellFormed
      (u := allocateEntry r) (w := 0) hbits h hlen hwrap hs
    refine ⟨_, by simp only [allocateRange, hpads, not_true, if_false, hrw, Except.bind]; rfl, hwf,
      ?_, fun _ => ?_⟩
    · exact fun hne => absurd hne (by simp [EfiStatus.isError])
    · exact ⟨b, hbase, rfl, hch⟩
  · refine ⟨_, by simp [allocateRange, hpads]; rfl, h, fun _ => rfl, ?_⟩
    exact fun hne => absurd rfl hne

lemma coreAllocateMap_spec (env : Environment) {bits : ℕ} (hbits : bits < 64) (h : WellFormed bits map)
    (r : AllocateRequest)
    (hwrap : ∀ b, allocateBase o r map = .ok (some b) → b + r.length ≤ 2 ^ 64) :
    ∃ result, coreAllocateMap env o r map = .ok result ∧
      AllocateOk bits o r map result := by
  have hfail : ∀ result : AllocateResult, result.status.isError = true → result.map = map →
      AllocateOk bits o r map result :=
    fun result hs heq => ⟨heq ▸ h, fun _ => heq, fun hns => absurd hs hns⟩
  unfold coreAllocateMap
  by_cases hp : (allocateParameters r).isError
  · exact ⟨_, by rw [if_pos hp], hfail _ hp rfl⟩
  obtain ⟨hal, hlen⟩ := allocateParameters_ok hp
  have ht : 2 ^ bits ≤ 2 ^ 63 := Nat.pow_le_pow_right (by decide) (by omega)
  rw [if_neg hp]
  by_cases htype : r.gcdAllocateType = .address
  · rw [if_pos htype]
    obtain ⟨b, hb⟩ : ∃ b, r.baseAddress = some b := by
      rw [← Option.isSome_iff_exists, Option.isSome_iff_ne_none]
      intro hnone
      simp only [allocateParameters, htype, hnone, if_true] at hp
      split_ifs at hp <;> exact absurd rfl hp
    have hbase : allocateBase o r map = .ok (some b) := by
      rw [allocateBase, if_neg hp, if_pos htype, hb]
    simp only [hb, Option.getD_some, allocateAddress]
    split_ifs with hali
    · exact ⟨_, rfl, hfail _ rfl rfl⟩
    rcases hs : coreSearchGcdMapEntry b r.length map with _ | ⟨i, k⟩
    · exact ⟨_, rfl, hfail _ rfl rfl⟩
    simp only
    split_ifs with hche
    · exact ⟨_, rfl, hfail _ hche rfl⟩
    · exact allocateRange_spec hbits h hlen (hwrap b hbase) hs hbase
  · rw [if_neg htype]
    obtain ⟨found, hfnd, hlin⟩ := allocateSearch_ok (o := o)
      (b := r.baseAddress.getD 0) h.tiles ht hal hlen
    have hbase : allocateBase o r map = .ok (some found.baseAddress) := by
      rw [allocateBase, if_neg hp, if_neg htype, hfnd]
      rfl
    simp only [hfnd, Except.bind]
    rcases hl : found.links with _ | ⟨i, k⟩
    · exact ⟨_, rfl, hfail _ rfl rfl⟩
    · exact allocateRange_spec hbits h hlen (hwrap _ hbase) (hlin (i, k) hl) hbase

end Edk2.Gcd

/-!
## The GCD maps over whole runs

A run is a sequence of calls of `CoreConvertSpace` and `CoreAllocateSpace` whose ranges do not
wrap around the address space, started from the maps of `CoreInitializeGcdServices`.
-/

namespace Edk2.Gcd

open Segment

/-- A call of one of the two functions that change the maps. -/
inductive GcdCall
  | convert (operation : GcdOperation) (r : ConvertRequest)
  | allocate (operation : GcdOperation) (r : AllocateRequest)
deriving DecidableEq, Repr

namespace GcdCall

def operation : GcdCall → GcdOperation
  | convert operation _ | allocate operation _ => operation

def length : GcdCall → ℕ
  | convert _ r => r.length
  | allocate _ r => r.length

/-- The base address of the range the call works on. -/
def base (s : GcdState) : GcdCall → Except Halt (Option ℕ)
  | convert _ r => .ok (some r.baseAddress)
  | allocate operation r => allocateBase operation r (s.map operation)

/-- The range of the call satisfies `BaseAddress + Length <= 2^64`. -/
def InRange (call : GcdCall) (s : GcdState) : Prop :=
  ∀ b, call.base s = .ok (some b) → b + call.length ≤ 2 ^ 64

/-- The rewriting of one entry and the initial value of `Attributes`. -/
def update : GcdCall → Update
  | convert operation r => convertEntry operation r (cpuArchAttributesOf operation r)
  | allocate _ r => allocateEntry r

def attributes : GcdCall → BitVec 64
  | convert _ r => r.attributes
  | allocate _ _ => 0

def run (env : Environment) (s : GcdState) : GcdCall → Except Halt (EfiStatus × GcdState)
  | convert operation r => coreConvertSpace env operation r s
  | allocate operation r =>
    (coreAllocateSpace env operation r s).bind fun (status, _, s') => .ok (status, s')

end GcdCall

/-- The states of the runs whose ranges satisfy `BaseAddress + Length <= 2^64`. -/
inductive Reachable (sizeOfMemorySpace sizeOfIoSpace : ℕ) : GcdState → Prop
  | init {s : GcdState} : coreInitializeGcdServices sizeOfMemorySpace sizeOfIoSpace = .ok s →
      Reachable sizeOfMemorySpace sizeOfIoSpace s
  | step {s s' : GcdState} {env : Environment} {call : GcdCall} {status : EfiStatus} :
      Reachable sizeOfMemorySpace sizeOfIoSpace s → call.InRange s →
      call.run env s = .ok (status, s') → Reachable sizeOfMemorySpace sizeOfIoSpace s'

/-- Both maps of a state are well formed. -/
structure StateOk (sizeOfMemorySpace sizeOfIoSpace : ℕ) (s : GcdState) : Prop where
  memory : WellFormed sizeOfMemorySpace s.mGcdMemorySpaceMap
  io : WellFormed sizeOfIoSpace s.mGcdIoSpaceMap
  memory_lt : sizeOfMemorySpace < 64
  io_lt : sizeOfIoSpace < 64

/-- What a call does to a state: a failed one nothing, a successful one rewrites its range in its
own map and leaves the other map alone. -/
structure CallOk (call : GcdCall) (s : GcdState) (status : EfiStatus) (s' : GcdState) : Prop where
  failed : status.isError → s' = s
  rewritten : ¬ status.isError → ∃ b, call.base s = .ok (some b) ∧
    RangeRewritten call.update call.attributes b call.length (s.map call.operation)
      (s'.map call.operation)
  other : s' = s.setMap call.operation (s'.map call.operation)

variable {m j : ℕ} {s s' : GcdState} {env : Environment} {o : GcdOperation}
  {map : List GcdMapEntry}

@[simp] lemma GcdState.setMap_map (s : GcdState) (operation : GcdOperation) :
    s.setMap operation (s.map operation) = s := by
  unfold setMap map
  split <;> rfl

@[simp] lemma GcdState.map_setMap (s : GcdState) (operation : GcdOperation)
    (map : List GcdMapEntry) : (s.setMap operation map).map operation = map := by
  unfold setMap GcdState.map
  split <;> simp_all

/-- The number of address bits of the map an operation works on. -/
def GcdOperation.bits (m j : ℕ) (operation : GcdOperation) : ℕ := if operation.onMemory then m else j

lemma StateOk.map_ok (h : StateOk m j s) (operation : GcdOperation) :
    WellFormed (operation.bits m j) (s.map operation) ∧ operation.bits m j < 64 := by
  unfold GcdOperation.bits GcdState.map
  split
  · exact ⟨h.memory, h.memory_lt⟩
  · exact ⟨h.io, h.io_lt⟩

lemma StateOk.setMap (h : StateOk m j s) (hmap : WellFormed (o.bits m j) map) :
    StateOk m j (s.setMap o map) := by
  unfold GcdOperation.bits at hmap
  unfold GcdState.setMap
  split
  · rw [if_pos (by assumption)] at hmap
    exact { h with memory := hmap }
  · rw [if_neg (by assumption)] at hmap
    exact { h with io := hmap }

lemma run_step (env : Environment) (h : StateOk m j s) (call : GcdCall) (hr : call.InRange s) :
    ∃ status s', call.run env s = .ok (status, s') ∧ StateOk m j s' ∧ CallOk call s status s' := by
  cases call with
  | convert operation r =>
    obtain ⟨hwf, hbits⟩ := h.map_ok operation
    obtain ⟨status, map', hrun, hwf', hfail, hch⟩ := coreConvertMap_spec env
      (o := operation) hbits hwf r (hr _ rfl)
    refine ⟨status, s.setMap operation map', ?_, h.setMap hwf', ?_, ?_, ?_⟩
    · simp only [GcdCall.run, coreConvertSpace, hrun, Except.bind]
    · intro hs
      rw [hfail hs, GcdState.setMap_map]
    · intro hs
      refine ⟨r.baseAddress, rfl, ?_⟩
      simp only [GcdCall.operation, GcdState.map_setMap]
      exact hch hs
    · simp [GcdCall.operation]
  | allocate operation r =>
    obtain ⟨hwf, hbits⟩ := h.map_ok operation
    obtain ⟨result, hrun, hwf', hfail, hch⟩ := coreAllocateMap_spec env
      (o := operation) hbits hwf r hr
    refine ⟨result.status, s.setMap operation result.map, ?_, h.setMap hwf', ?_, ?_, ?_⟩
    · simp only [GcdCall.run, coreAllocateSpace, hrun, Except.bind]
    · intro hs
      rw [hfail hs, GcdState.setMap_map]
    · intro hs
      obtain ⟨b, hb, -, hran⟩ := hch hs
      refine ⟨b, hb, ?_⟩
      simp only [GcdCall.operation, GcdState.map_setMap]
      exact hran
    · simp [GcdCall.operation]

lemma Reachable.stateOk (h : Reachable m j s) : StateOk m j s := by
  induction h with
  | init hinit =>
    unfold coreInitializeGcdServices at hinit
    split_ifs at hinit with hlt
    cases hinit
    exact ⟨wellFormed_initial m, wellFormed_initial j, by omega, by omega⟩
  | step hrea hr hrun ih =>
    obtain ⟨status, s', hrun', hok, -⟩ := run_step _ ih _ hr
    rw [hrun] at hrun'
    cases hrun'
    exact hok

/-- The addition of one page of system memory, and the state it leaves. -/
def addedPage : ConvertRequest :=
  { gcdMemoryType := .systemMemory, baseAddress := 0x1000, length := 0x1000 }

def afterAdd : GcdState where
  mGcdMemorySpaceMap :=
    [ { initialEntry 48 with endAddress := 0xFFF },
      { initialEntry 48 with
        baseAddress := 0x1000, endAddress := 0x1FFF, gcdMemoryType := .systemMemory
        capabilities := efiMemoryRuntime },
      { initialEntry 48 with baseAddress := 0x2000 } ]
  mGcdIoSpaceMap := [initialEntry 16]

end Edk2.Gcd
