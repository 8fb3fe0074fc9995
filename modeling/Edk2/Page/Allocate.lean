import Edk2.Lib.Align
import Edk2.Page.Atomic

/-!
# A successful call of `AllocatePages`

The pages that are returned have been free, or were promoted by the call, and have the requested
type. The upkeep of the map may take further free pages for descriptors and promote untested memory;
all other pages keep their types. The number of pages is taken to be below `2 ^ 52`: from there on
its number of bytes wraps around.
-/

namespace Edk2.Page

open Align Outcome Segment
open Edk2.Gcd
open Edk2.Pool (MemoryType efiConventionalMemory efiBootServicesData efiSizeToPages)

variable {cfg : Config} {map : List MemoryMap} {start top a : ℕ}
  {s s' : State} {m numberOfPages : ℕ} {type : MemoryType}
  {e : MemoryMap}

/-- The number of pages, rounded up to the granularity of the type and not wrapped around. -/
def wholePages (cfg : Config) (type : MemoryType) (numberOfPages : ℕ) : ℕ :=
  roundUp numberOfPages (efiSizeToPages (cfg.granularity type))

/-- The pages may not lie above this address. -/
def limitOf (cfg : Config) (how : AllocateType) (memory : ℕ) : ℕ :=
  if how = .maxAddress then memory else cfg.maxAllocAddress

/-- The address lies in one of the pages from `base` on. -/
def InPages (base pages a : ℕ) : Prop := base ≤ a ∧ a < base + efiPageSize * pages

/-- Exactly these pages have got the type, and they were free before. -/
structure Allocates (limit : ℕ) (type : MemoryType) (pages base : ℕ) (s s' : State) : Prop where
  le_limit : base + efiPageSize * pages ≤ limit + 1
  was : ∀ a, InPages base pages a → HasType s.gMemoryMap a efiConventionalMemory
  now : ∀ a, InPages base pages a → HasType s'.gMemoryMap a type
  others : ∀ a t, ¬ InPages base pages a → (HasType s'.gMemoryMap a t ↔ HasType s.gMemoryMap a t)

/-- These pages have got the type, and they were free before or waited for their promotion; of the
others, free pages may have been taken for descriptors and waiting memory may have been promoted. -/
structure AllocatesWithUpkeep (cfg : Config) (limit : ℕ) (type : MemoryType) (pages base : ℕ)
    (s s' : State) : Prop where
  le_limit : base + efiPageSize * pages ≤ limit + 1
  was : ∀ a, InPages base pages a → HasType s.gMemoryMap a efiConventionalMemory ∨ Waits cfg s a
  now : ∀ a, InPages base pages a → HasType s'.gMemoryMap a type
  kept : ∀ a t, ¬ InPages base pages a → HasType s.gMemoryMap a t → HasType s'.gMemoryMap a t ∨
    (t = efiConventionalMemory ∧ HasType s'.gMemoryMap a efiBootServicesData)
  types : ∀ a t, ¬ InPages base pages a → HasType s'.gMemoryMap a t → HasType s.gMemoryMap a t ∨
    (HasType s.gMemoryMap a efiConventionalMemory ∧ t = efiBootServicesData) ∨
    (Waits cfg s a ∧ (t = efiConventionalMemory ∨ t = efiBootServicesData))

lemma descEnd_le {maxAddress alignment : ℕ} :
    descEnd maxAddress alignment e ≤ maxAddress ∨
      descEnd maxAddress alignment e = 2 ^ 64 - 1 := by
  have hlim : u64 ((if e.stop ≥ maxAddress then maxAddress else e.stop) + 1) ≤ maxAddress + 1 := by
    refine (Nat.mod_le _ _).trans ?_
    split_ifs <;> omega
  unfold descEnd
  generalize u64 ((if e.stop ≥ maxAddress then maxAddress else e.stop) + 1) = limit at hlim ⊢
  have hle := Nat.sub_le limit (limit % alignment)
  dsimp only
  generalize limit - limit % alignment = x at hle ⊢
  unfold u64
  omega

lemma bestMatch_cases (minAddress bytes alignment target : ℕ) (e : MemoryMap) :
    bestMatch top minAddress bytes alignment target e = target ∨
      bestMatch top minAddress bytes alignment target e = descEnd top alignment e := by
  unfold bestMatch
  dsimp only
  split_ifs <;> simp only [true_or, or_true]

lemma foldl_bestMatch_le (top minAddress bytes alignment : ℕ) {target : ℕ}
    (map : List MemoryMap) (htar : target ≤ top ∨ target = 2 ^ 64 - 1) :
    map.foldl (bestMatch top minAddress bytes alignment) target ≤ top ∨
      map.foldl (bestMatch top minAddress bytes alignment) target = 2 ^ 64 - 1 := by
  induction map generalizing target with
  | nil => exact htar
  | cons e rest ih =>
    refine ih ?_
    rcases bestMatch_cases minAddress bytes alignment target e with heq | heq
    · rw [heq]
      exact htar
    · rw [heq]
      exact descEnd_le

/-- The range ends at the limit or below, or at the top of the address space. -/
def EndsBelow (maxAddress numberOfPages start : ℕ) : Prop :=
  endOfPages start numberOfPages ≤ maxAddress ∨ endOfPages start numberOfPages = 2 ^ 64 - 1

lemma EndsBelow.mono {maxAddress maxAddress' : ℕ} (h : EndsBelow maxAddress numberOfPages start)
    (hle : maxAddress ≤ maxAddress') : EndsBelow maxAddress' numberOfPages start :=
  h.imp_left fun hend => hend.trans hle

lemma endsBelow_find {maxAddress minAddress alignment : ℕ} (hmax : maxAddress < 2 ^ 64)
    (hn : numberOfPages < 2 ^ 52)
    (hne : coreFindFreePagesI maxAddress minAddress numberOfPages alignment map ≠ 0) :
    EndsBelow maxAddress numberOfPages
      (coreFindFreePagesI maxAddress minAddress numberOfPages alignment map) := by
  unfold coreFindFreePagesI at hne ⊢
  split_ifs at hne ⊢ with hsma
  · exact absurd rfl hne
  have htop : endOfPage maxAddress ≤ maxAddress := by
    unfold endOfPage
    simp only [efiPageSize, efiPageMask] at hsma ⊢
    split_ifs <;> omega
  have hle := foldl_bestMatch_le (endOfPage maxAddress) minAddress
    (u64 (numberOfPages * efiPageSize)) alignment map (.inl (Nat.zero_le _))
  have hbyt : u64 (numberOfPages * efiPageSize) = 4096 * numberOfPages := by
    rw [efiPageSize, Nat.mul_comm]
    exact u64_of_lt (by omega)
  dsimp only at hne ⊢
  generalize map.foldl _ 0 = target at hle hne ⊢
  rw [hbyt] at hne ⊢
  split_ifs at hne ⊢ with hbase
  · exact absurd rfl hne
  unfold EndsBelow endOfPages
  rw [hbyt]
  unfold u64
  omega

lemma endsBelow_bin (map : List MemoryMap) (maximum minAddress alignment : ℕ) {p : Prop}
    [Decidable p] {maxAddress : ℕ} (hmax : maxAddress < 2 ^ 64) (hn : numberOfPages < 2 ^ 52)
    (hp : p → maximum ≤ maxAddress) :
    let found := if p then coreFindFreePagesI maximum minAddress numberOfPages alignment map else 0
    found ≠ 0 → EndsBelow maxAddress numberOfPages found := by
  intro found hne
  by_cases h : p
  · simp only [found, if_pos h] at hne ⊢
    exact (endsBelow_find ((hp h).trans_lt hmax) hn hne).mono (hp h)
  · simp only [found, if_neg h, ne_eq, not_true_eq_false] at hne

lemma endsBelow_searchBins {maxAddress alignment : ℕ} (hmax : maxAddress < 2 ^ 64)
    (hn : numberOfPages < 2 ^ 52)
    (hne : (searchBins maxAddress numberOfPages type alignment s).1 ≠ 0) :
    EndsBelow maxAddress numberOfPages
      (searchBins maxAddress numberOfPages type alignment s).1 := by
  have hbel : type < Pool.efiMaxMemoryType ∧
      maxAddress ≥ (s.mMemoryTypeStatistics type).maximumAddress →
        (s.mMemoryTypeStatistics type).maximumAddress ≤ maxAddress := And.right
  have hbin := endsBelow_bin s.gMemoryMap _ (s.mMemoryTypeStatistics type).baseAddress alignment
    hmax hn hbel
  have hbel' : maxAddress ≥ s.mDefaultMaximumAddress → s.mDefaultMaximumAddress ≤ maxAddress := id
  have hdef := endsBelow_bin s.gMemoryMap _ 0 alignment hmax hn hbel'
  unfold searchBins at hne ⊢
  dsimp only at hne hbin hdef ⊢
  by_cases hb : (if type < Pool.efiMaxMemoryType ∧
      maxAddress ≥ (s.mMemoryTypeStatistics type).maximumAddress then
      coreFindFreePagesI (s.mMemoryTypeStatistics type).maximumAddress
        (s.mMemoryTypeStatistics type).baseAddress numberOfPages alignment s.gMemoryMap
    else 0) ≠ 0
  · rw [if_pos hb]
    exact hbin hb
  rw [if_neg hb] at hne ⊢
  by_cases hd : (if maxAddress ≥ s.mDefaultMaximumAddress then
      coreFindFreePagesI s.mDefaultMaximumAddress 0 numberOfPages alignment s.gMemoryMap
    else 0) ≠ 0
  · rw [if_pos hd]
    exact hdef hd
  rw [if_neg hd] at hne ⊢
  exact endsBelow_find hmax hn hne

/-! ### The converted range -/

lemma IsPages.endOfPages (h : IsPages start (Page.endOfPages start numberOfPages))
    (hn : numberOfPages < 2 ^ 52) :
    Page.endOfPages start numberOfPages + 1 = start + efiPageSize * numberOfPages := by
  have hlt := h.lt
  have htop := h.stop_lt
  have hbyt : u64 (numberOfPages * efiPageSize) = 4096 * numberOfPages := by
    rw [efiPageSize, Nat.mul_comm]
    exact u64_of_lt (by omega)
  unfold Page.endOfPages at hlt htop ⊢
  rw [hbyt] at hlt htop ⊢
  unfold u64 efiPageSize at *
  omega

lemma AllocatesWithUpkeep.of_taken {t t' : State} {limit : ℕ} (hup : Upkeep cfg s t)
    (htak : Taken start (endOfPages start numberOfPages) type t t') (hup' : Upkeep cfg t' s')
    (hn : numberOfPages < 2 ^ 52) (htype : type ≠ efiConventionalMemory)
    (hlim : endOfPages start numberOfPages ≤ limit) :
    AllocatesWithUpkeep cfg limit type numberOfPages start s s' := by
  have hend := htak.pages.endOfPages hn
  have hin : ∀ a, InPages start numberOfPages a ↔
      a ∈ range start (endOfPages start numberOfPages) := by
    intro a
    rw [InPages, mem_range]
    omega
  have hwai : ∀ a, Waits cfg t' a → Waits cfg t a := by
    intro a ha
    rwa [Waits, htak.gcdMap] at ha
  refine ⟨by omega, fun a ha => ?_, fun a ha => ?_, fun a u hout hu => ?_, fun a u hout hu => ?_⟩
  · rcases hup.types a _ (htak.was a ((hin a).mp ha)) with hc | ⟨-, heq⟩ | ⟨hw, -⟩
    · exact .inl hc
    · exact absurd heq efiConventionalMemory_ne
    · exact .inr hw
  · have hnow := (htak.retyped a type).mpr (.inl ⟨(hin a).mp ha, rfl⟩)
    rcases hup'.kept a type hnow with hk | ⟨heq, -⟩
    · exact hk
    · exact absurd heq htype
  · rw [hin] at hout
    have hstep : ∀ v, HasType t.gMemoryMap a v → HasType t'.gMemoryMap a v :=
      fun v hv => (htak.retyped a v).mpr (.inr ⟨hout, hv⟩)
    rcases hup.kept a u hu with hk | ⟨rfl, hk⟩
    · exact hup'.kept a u (hstep u hk)
    · rcases hup'.kept a _ (hstep _ hk) with hk' | ⟨heq, -⟩
      · exact .inr ⟨rfl, hk'⟩
      · exact absurd heq.symm efiConventionalMemory_ne
  · rw [hin] at hout
    have hstep : ∀ v, HasType t'.gMemoryMap a v → HasType t.gMemoryMap a v := by
      intro v hv
      rcases (htak.retyped a v).mp hv with ⟨ha, -⟩ | ⟨-, hv⟩
      · exact absurd ha hout
      · exact hv
    rcases hup'.types a u hu with hu' | ⟨hu', rfl⟩ | ⟨hw, hu'⟩
    · exact hup.types a u (hstep u hu')
    · rcases hup.types a _ (hstep _ hu') with hc | ⟨-, heq⟩ | ⟨hw, -⟩
      · exact .inr (.inl ⟨hc, rfl⟩)
      · exact absurd heq efiConventionalMemory_ne
      · exact .inr (.inr ⟨hw, .inr rfl⟩)
    · exact .inr (.inr ⟨hup.waits a (hwai a hw), hu'⟩)

lemma convertPages_allocates {limit : ℕ} (hup : Upkeep cfg s s') (h : Inv cfg s')
    (hn : numberOfPages < 2 ^ 52) (htype : type ≠ efiConventionalMemory)
    (hlim : endOfPages start numberOfPages ≤ limit ∨
      endOfPages start numberOfPages = 2 ^ 64 - 1) :
    Ends (convertPages cfg start numberOfPages type s')
      (fun status t => status = .success →
        AllocatesWithUpkeep cfg limit type numberOfPages start s t) Anyhow := by
  refine (convert_taken tends_coreFreeMemoryMapStack h htype).imp fun status t hc hst => ?_
  rcases hc with ⟨herr, -⟩ | ⟨t', htak, -, -, -, ht⟩
  · rw [hst] at herr
    cases herr
  · refine .of_taken hup htak ht.upkeep hn htype (hlim.resolve_right fun htop => ?_)
    -- no descriptor reaches the top of the address space
    have hlt := htak.pages.stop_lt
    rw [htop] at hlt
    exact absurd hlt (by decide)

lemma maxAllocAddress_lt (cfg : Config) : cfg.maxAllocAddress < 2 ^ 64 := by
  rcases cfg.max_valid with h | h <;> rw [h] <;> decide

lemma allocateLocked_allocates {how : AllocateType} {memory granularity : ℕ} (h : Inv cfg s)
    (hn : numberOfPages < 2 ^ 52) (htype : type ≠ efiConventionalMemory)
    (hmem : memory < 2 ^ 64)
    (hadd : how = .address → endOfPages memory numberOfPages ≤ cfg.maxAllocAddress) :
    Ends (allocateLocked cfg how type numberOfPages memory granularity s)
      (fun r s' => r.1 = .success →
        AllocatesWithUpkeep cfg (limitOf cfg how memory) type numberOfPages r.2 s s') Anyhow := by
  refine ends_ite (fun hhow => ?_) fun hhow => ?_
  · refine ends_bind ((convertPages_allocates (Upkeep.refl s) h hn htype
      (.inl (hadd hhow))).imp fun status s' hs => ends_pure fun hst => ?_)
    rw [limitOf, if_neg (by rw [hhow]; decide)]
    exact hs hst
  have hlim : limitOf cfg how memory < 2 ^ 64 := by
    grind [limitOf, maxAllocAddress_lt]
  refine ends_bind ((findFreePages_tended tends_coreFreeMemoryMapStack h).imp fun start s₁ hf => ?_)
  obtain ⟨ht, hsea⟩ := hf
  refine ends_ite (fun _ => ends_pure fun hst => by cases hst) fun hne => ?_
  obtain ⟨t, -, rfl⟩ := hsea hne
  exact ends_bind ((convertPages_allocates ht.upkeep ht.inv hn htype
    (endsBelow_searchBins hlim hn hne)).imp fun status s' hs => ends_pure hs)

lemma roundPages_eq (hn : wholePages cfg type numberOfPages < 2 ^ 52) :
    roundPages numberOfPages (cfg.granularity type) = wholePages cfg type numberOfPages := by
  have hle : numberOfPages ≤ wholePages cfg type numberOfPages := le_roundUp _ _
  have hsize : efiSizeToPages (cfg.granularity type) = 1 ∨
      efiSizeToPages (cfg.granularity type) = 16 := by
    unfold Pool.Config.granularity
    split_ifs
    · rcases cfg.valid with h | h <;> rw [h]
      · exact .inl rfl
      · exact .inr rfl
    · exact .inl rfl
  unfold wholePages roundUp at hle hn ⊢
  unfold roundPages
  rcases hsize with h | h <;> rw [h] at hle hn ⊢ <;> dsimp only
  · rw [u64_of_lt (by omega)]
    omega
  · rw [u64_of_lt (by omega)]
    omega

/-- An allocation that succeeds has taken exactly the pages it returns, apart from the upkeep of
the map. -/
theorem allocates_coreInternalAllocatePages (information : List TypeInformation) (s s' : State)
    (how : AllocateType) (type : MemoryType) (numberOfPages : ℕ) (memory result : Option ℕ)
    (h : Reachable cfg information s) (hmemory : ∀ m ∈ memory, m < 2 ^ 64)
    (hpages : wholePages cfg type numberOfPages < 2 ^ 52)
    (hrun : coreInternalAllocatePages cfg how type numberOfPages memory s =
      .ok (.success, result) s') :
    ∃ m base, memory = some m ∧ result = some base ∧
      AllocatesWithUpkeep cfg (limitOf cfg how m) type (wholePages cfg type numberOfPages) base
        s s' := by
  unfold coreInternalAllocatePages at hrun
  split_ifs at hrun with hhow htype
  · cases hrun
  · cases hrun
  rcases memory with _ | m
  · cases hrun
  dsimp only at hrun
  split_ifs at hrun with haligned hrejected
  · cases hrun
  · cases hrun
  obtain ⟨r, s₁, hlocked, hpure⟩ := bind_eq_ok.mp hrun
  obtain ⟨hr, rfl⟩ := pure_eq_ok.mp hpure
  have hstatus : r.1 = .success := congrArg Prod.fst hr
  have hresult : some r.2 = result := by
    have hsnd := congrArg Prod.snd hr
    simpa [hstatus, EfiStatus.isError] using hsnd
  obtain ⟨t, hbody, hmap, -, -⟩ := locked_eq_ok hlocked
  have hinv : Inv cfg { s with gMemoryLock := true } :=
    ⟨h.ready.inv.map, h.ready.inv.depth_lt, h.ready.inv.untested⟩
  rw [roundPages_eq hpages] at hbody hrejected
  have hconv : type ≠ efiConventionalMemory := fun heq => htype (.inr (.inl heq))
  have hdone := (allocateLocked_allocates hinv hpages hconv (hmemory m rfl) fun heq => ?_).of_ok
    hbody hstatus
  · refine ⟨m, r.2, rfl, hresult.symm, ?_⟩
    refine ⟨hdone.le_limit, hdone.was, fun a ha => ?_, fun a t' hout ht => ?_,
      fun a t' hout ht => ?_⟩
    · rw [hmap]
      exact hdone.now a ha
    · rw [hmap]
      exact hdone.kept a t' hout ht
    · rw [hmap] at ht
      exact hdone.types a t' hout ht
  · grind [AddressRejected]

theorem allocates_coreInternalAllocatePages_one :
    ∃ base s', coreInternalAllocatePages sampleConfig .anyPages efiBootServicesData 1 (some 0)
        sixteenPages = .ok (.success, some base) s' ∧
      AllocatesWithUpkeep sampleConfig sampleConfig.maxAllocAddress efiBootServicesData 1 base
        sixteenPages s' := by
  have hrun : returns (fun r _ => r.1 = .success)
      (coreInternalAllocatePages sampleConfig .anyPages efiBootServicesData 1 (some 0)
        sixteenPages) = true := by decide +kernel
  obtain ⟨⟨status, result⟩, s', hok, htest⟩ := exists_of_returns hrun
  cases of_decide_eq_true htest
  obtain ⟨m, base, -, rfl, hallocates⟩ := allocates_coreInternalAllocatePages [] _ _ _ _ _ _ _
    reachable_sixteenPages (by simp) (by decide) hok
  exact ⟨base, s', hok, hallocates⟩

/-- In a reachable state the call succeeds, but takes other pages than those it returns. -/
def Misallocates (how : AllocateType) (type : MemoryType) (numberOfPages memory : ℕ) (s : State) :
    Prop :=
  ∃ base s', Reachable sampleConfig [] s ∧
    coreInternalAllocatePages sampleConfig how type numberOfPages (some memory) s =
      .ok (.success, some base) s' ∧
    ¬ Allocates (limitOf sampleConfig how memory) type
      (wholePages sampleConfig type numberOfPages) base s s'

/-- The first 62 of 66 pages are allocated and no descriptor is left. -/
def noEntries : State :=
  Outcome.state ((allocateAll.take 62).forM (Call.perform sampleConfig) filledState)

/-- Memory that waits for its promotion. -/
def waitingState : State := initialState sampleConfig [] [untestedEntry 0x100000 0x10FFFF]

lemma sample_runs :
    Returns ((allocateAll.take 62).forM (Call.perform sampleConfig) filledState) = true ∧
    returns (fun r s' => r = (.success, some 0x13E000) ∧
        HasType s'.gMemoryMap 0x140000 efiBootServicesData ∧
        ¬ HasType noEntries.gMemoryMap 0x140000 efiBootServicesData)
      (coreInternalAllocatePages sampleConfig .address 3 1 (some 0x13E000) noEntries) = true ∧
    returns (fun r _ => r = (.success, some 0x10E000))
      (coreInternalAllocatePages sampleConfig .anyPages efiBootServicesData 1 (some 0)
        waitingState) = true ∧
    returns (fun r _ => r.1 = .success ∧ r.2.isSome)
      (coreInternalAllocatePages sampleConfig .anyPages efiBootServicesData (2 ^ 52 + 1) (some 0)
        sixteenPages) = true := by
  decide +kernel

lemma reachable_noEntries : Reachable sampleConfig [] noEntries := by
  refine reachable_filledState.forM (fun call hcall t => ?_) (Returns.eq_ok sample_runs.1)
  obtain ⟨i, -, rfl⟩ := List.mem_map.mp (List.mem_of_mem_take hcall)
  trivial

lemma misallocates_noEntries : Misallocates .address 3 1 0x13E000 noEntries := by
  obtain ⟨r, s', hok, htest⟩ := exists_of_returns sample_runs.2.1
  obtain ⟨rfl, hnow, hwas⟩ := of_decide_eq_true htest
  refine ⟨_, s', reachable_noEntries, hok, fun h => hwas ((h.others _ _ ?_).mp hnow)⟩
  unfold InPages
  decide

lemma reachable_waitingState : Reachable sampleConfig [] waitingState := by
  refine .init ⟨?_, by simp, by simp⟩
  intro g hg _
  rw [List.mem_singleton.mp hg]
  exact ⟨by decide, by decide, by decide, by decide⟩

lemma misallocates_waitingState : Misallocates .anyPages efiBootServicesData 1 0 waitingState := by
  obtain ⟨r, s', hok, htest⟩ := exists_of_returns sample_runs.2.2.1
  cases of_decide_eq_true htest
  refine ⟨_, s', reachable_waitingState, hok, fun h => ?_⟩
  have hwas := h.was 0x10E000 (by unfold InPages; decide)
  exact absurd hwas (by decide)

lemma misallocates_wrapped :
    Misallocates .anyPages efiBootServicesData (2 ^ 52 + 1) 0 sixteenPages := by
  obtain ⟨⟨status, result⟩, s', hok, htest⟩ := exists_of_returns sample_runs.2.2.2
  obtain ⟨hst, hsome⟩ := of_decide_eq_true htest
  cases hst
  obtain ⟨base, rfl⟩ := Option.isSome_iff_exists.mp hsome
  refine ⟨base, s', reachable_sixteenPages, hok, fun h => ?_⟩
  have hle := h.le_limit
  have hpag : wholePages sampleConfig efiBootServicesData (2 ^ 52 + 1) = 2 ^ 52 + 1 := by decide
  have hlim : limitOf sampleConfig .anyPages 0 = 0xFFFFFFFFFFFF := rfl
  rw [hpag, hlim, efiPageSize] at hle
  omega

/-- The call takes a page for descriptors, promotes memory that it returns, and returns fewer pages
than asked for if their number of bytes wraps around. -/
theorem misallocates :
    Misallocates .address 3 1 0x13E000 noEntries ∧
      Misallocates .anyPages efiBootServicesData 1 0 waitingState ∧
      Misallocates .anyPages efiBootServicesData (2 ^ 52 + 1) 0 sixteenPages :=
  ⟨misallocates_noEntries, misallocates_waitingState, misallocates_wrapped⟩

end Edk2.Page
