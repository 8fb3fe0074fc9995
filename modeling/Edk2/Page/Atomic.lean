import Mathlib.Data.List.Perm.Subperm
import Edk2.Page.Run
import Edk2.Page.Upkeep

/-!
# A failed call of `FreePages`

`CoreConvertPagesEx` commits one descriptor after the other. If a call of `CoreInternalFreePages`
fails, the map is unchanged unless the first descriptor was converted: then a later part of the
range was free or not in the map.
-/

namespace Edk2.Page

open Outcome Segment
open Edk2.Gcd
open Edk2.Pool (MemoryType efiConventionalMemory efiBootServicesData)

variable {cfg : Config} {start stop a : ℕ} {S : Set ℕ} {s s' s'' : State} {c m k n : ℕ}
  {numberOfPages fuel : ℕ} {drain : PageM Unit} {gcdMap : List GcdMapEntry}

/-- The address belongs to allocated memory. -/
def Allocated (map : List MemoryMap) (a : ℕ) : Prop :=
  ∃ t, t ≠ efiConventionalMemory ∧ HasType map a t

/-- What the caller can see of the map. -/
structure Unchanged (s s' : State) : Prop where
  gMemoryMap : s'.gMemoryMap = s.gMemoryMap
  mMemoryMapKey : s'.mMemoryMapKey = s.mMemoryMapKey
  mMemoryTypeStatistics : s'.mMemoryTypeStatistics = s.mMemoryTypeStatistics

/-- The request is turned down at its first descriptor, or all of its pages are allocated. -/
def FreesWhole (cfg : Config) (memory numberOfPages : ℕ) (s : State) : Prop :=
  match findCover memory s.gMemoryMap with
  | none => True
  | some (_, entry, _) =>
    memory % cfg.granularity entry.type ≠ 0 ∨ entry.type = efiConventionalMemory ∨
      ∀ a, memory ≤ a →
        a ≤ endOfPages memory (roundPages numberOfPages (cfg.granularity entry.type)) →
        Allocated s.gMemoryMap a

/-! ### The loop -/

lemma exists_findCover (start : ℕ) {map : List MemoryMap}
    (h : ∃ e ∈ map, e.start ≤ start ∧ start < e.stop) :
    ∃ found, findCover start map = some found := by
  induction map with
  | nil => simp at h
  | cons e rest ih =>
    rw [findCover]
    split_ifs with hc
    · exact ⟨_, rfl⟩
    · obtain ⟨f, hf, hcov⟩ := h
      rcases List.mem_cons.mp hf with rfl | hf
      · exact absurd hcov hc
      · obtain ⟨found, hfnd⟩ := ih ⟨f, hf, hcov⟩
        rw [hfnd]
        exact ⟨_, rfl⟩

lemma findCover_allocated {depth : ℕ} (h : MapOk s.gMemoryMap depth S)
    (hsta : start % efiPageSize = 0) (ha : Allocated s.gMemoryMap start) :
    ∃ before e after, findCover start s.gMemoryMap = some (before, e, after) ∧
      e.type ≠ efiConventionalMemory := by
  obtain ⟨t, ht, hhas⟩ := ha
  obtain ⟨e, he, hc, -⟩ := id hhas
  have hpag := h.pages e he
  have hmod := hpag.stop_mod
  simp only [efiPageSize] at hmod hsta
  obtain ⟨⟨before, f, after⟩, hfnd⟩ := exists_findCover start ⟨e, he, hc.1, by omega⟩
  refine ⟨before, f, after, hfnd, ?_⟩
  obtain ⟨hmap, hlo, hhi⟩ := findCover_spec hfnd
  have hf : HasType s.gMemoryMap start f.type :=
    ⟨f, by rw [hmap]; simp, ⟨hlo, hhi.le⟩, rfl⟩
  rw [h.hasType_unique hf hhas]
  exact ht

lemma refused_free {e : MemoryMap} :
    (Change.type efiConventionalMemory).Refused e stop ↔ e.type = efiConventionalMemory := by
  simp [Change.Refused]

lemma Allocated.kept (h : Allocated s.gMemoryMap a) {rangeEnd : ℕ}
    (hre : Retyped start rangeEnd efiConventionalMemory s s') (hup : Upkeep cfg s' s'')
    (ha : a ∉ range start rangeEnd) : Allocated s''.gMemoryMap a := by
  obtain ⟨t, ht, hhas⟩ := h
  rcases hup.kept a t ((hre a t).mpr (.inr ⟨ha, hhas⟩)) with hk | ⟨heq, -⟩
  · exact ⟨t, ht, hk⟩
  · exact absurd heq ht

lemma freeEntry_spec (hdra : Tends cfg c m drain) (h : Inv cfg s)
    (hsta : start % efiPageSize = 0) (hstop : (stop + 1) % efiPageSize = 0)
    (hlt : start < stop) {next : ℕ → PageM EfiStatus} {Q : EfiStatus → State → Prop}
    (hnone : (∀ before e after, findCover start s.gMemoryMap = some (before, e, after) →
      e.type = efiConventionalMemory) → Q .notFound s)
    (hnext : ∀ rangeEnd s₁ s₂, start < rangeEnd → rangeEnd ≤ stop →
      (rangeEnd + 1) % efiPageSize = 0 → Retyped start rangeEnd efiConventionalMemory s s₁ →
      Bumps 1 s s₁ → s₁.mGcdMemorySpaceMap = s.mGcdMemorySpaceMap → Tended cfg c m s₁ s₂ →
      Ends (next (rangeEnd + 1) s₂) Q Anyhow) :
    Ends ((convertEntry (.type efiConventionalMemory) numberOfPages start stop >>=
      convertNext drain next) s) Q Anyhow := by
  have hent : Ends (convertEntry (.type efiConventionalMemory) numberOfPages start stop s) _ _ :=
    convertEntry_spec h.map h.depth_lt hsta hstop hlt
  refine ends_bind ((hent.and (convertEntry_types h.map h.depth_lt hsta hstop hlt)).mono ?_
    fun _ _ _ => trivial)
  rintro r s₁ ⟨hspec, htyp⟩
  rcases hspec with ⟨rfl, rfl⟩ | ⟨rangeEnd, rfl, hconv⟩
  · refine ends_pure (hnone fun before e after hfnd => ?_)
    rcases htyp with ⟨-, -, href⟩ | ⟨_, _, _, -, -, hr, -⟩
    · exact refused_free.mp (href before e after hfnd)
    · cases hr
  rcases htyp with ⟨hr, -⟩ | ⟨before, e, after, -, -, hr, -, hret, hbum⟩
  · cases hr
  cases hr
  have hinv := hconv.toWorked.inv h.untested
  refine ends_bind ((hdra s₁ hinv).imp fun _ s₂ ht => ?_)
  rw [u64_of_lt hconv.range_top]
  exact hnext _ s₁ s₂ hconv.range_lt hconv.range_le hconv.range_mod hret
    hbum hconv.keeps.mGcdMemorySpaceMap ht

lemma freeLoop_success (numberOfPages fuel : ℕ) (hdra : Tends cfg c m drain) (h : Inv cfg s)
    (hsta : start % efiPageSize = 0) (hstop : (stop + 1) % efiPageSize = 0)
    (hall : ∀ a, start ≤ a → a ≤ stop → Allocated s.gMemoryMap a) :
    Ends (convertLoop drain (.type efiConventionalMemory) numberOfPages stop fuel start s)
      (fun status _ => status = .success) Anyhow := by
  induction fuel generalizing s start with
  | zero => exact ends_ite (fun _ => ends_throw trivial) fun _ => ends_pure rfl
  | succ fuel ih =>
    refine ends_ite (fun hlt => ?_) fun _ => ends_pure rfl
    refine freeEntry_spec hdra h hsta hstop hlt (fun hnone => ?_) ?_
    · obtain ⟨before, e, after, hfnd, hne⟩ :=
        findCover_allocated h.map hsta (hall start le_rfl hlt.le)
      exact absurd (hnone before e after hfnd) hne
    · intro rangeEnd s₁ s₂ hlo hhi hmod hret _ _ ht
      refine ih ht.inv hmod fun a ha ha' => ?_
      refine (hall a (by omega) ha').kept hret ht.upkeep ?_
      rw [mem_range]
      omega

lemma freeLoop_charged (hdra : Tends cfg 1 m drain) (h : Inv cfg s)
    (hsta : start % efiPageSize = 0) (hstop : (stop + 1) % efiPageSize = 0)
    (hk : stop + 1 ≤ start + 4096 * k) :
    Ends (convertLoop drain (.type efiConventionalMemory) numberOfPages stop fuel start s)
      (fun _ s' => Charged cfg 1 ((1 + m) * k) s s') Anyhow := by
  have hrefl : ∀ n, Charged cfg 1 n s s := fun n => ⟨0, Bumps.refl s, by omega⟩
  induction fuel generalizing s start k with
  | zero => exact ends_ite (fun _ => ends_throw trivial) fun _ => ends_pure (hrefl _)
  | succ fuel ih =>
    refine ends_ite (fun hlt => ?_) fun _ => ends_pure (hrefl _)
    refine freeEntry_spec hdra h hsta hstop hlt (fun _ => hrefl _) ?_
    intro rangeEnd s₁ s₂ hlo hhi hmod _ hbum hgcd ht
    simp only [efiPageSize] at hsta hmod
    obtain ⟨k, rfl⟩ : ∃ j, k = j + 1 := ⟨k - 1, by omega⟩
    refine (ih (k := k) ht.inv (by simpa only [efiPageSize] using hmod) (by omega)
      fun n => ⟨0, Bumps.refl s₂, by omega⟩).imp fun _ s' hs' => ?_
    have htot := ((Charged.of_bumps hbum hgcd).trans ht.charged).trans hs'
    rwa [Nat.mul_succ, Nat.add_comm]

lemma UntestedOk.countP_le (h : UntestedOk cfg gcdMap S) :
    gcdMap.countP (untested cfg) ≤ 2 ^ 52 := by
  rw [List.countP_eq_length_filter]
  have hin : ∀ g ∈ gcdMap.filter (untested cfg), IsPages g.baseAddress g.endAddress := by
    intro g hg
    rw [List.mem_filter] at hg
    exact h.pages g hg.1 hg.2
  have hnod : ((gcdMap.filter (untested cfg)).map fun g => g.baseAddress / 4096).Nodup := by
    rw [List.Nodup, List.pairwise_map]
    refine (h.apart.filter (untested cfg)).imp_of_mem fun {g g'} hg hg' hap => ?_
    have hpag := hin g hg
    have hpag' := hin g' hg'
    have hap' := hap (List.mem_filter.mp hg).2 (List.mem_filter.mp hg').2
    have hmod := hpag.start_mod
    have hmod' := hpag'.start_mod
    have hlt := hpag.lt
    have hlt' := hpag'.lt
    simp only [efiPageSize] at hmod hmod'
    omega
  have hsub : ((gcdMap.filter (untested cfg)).map fun g => g.baseAddress / 4096) ⊆
      List.range (2 ^ 52) := by
    intro x hx
    obtain ⟨g, hg, rfl⟩ := List.mem_map.mp hx
    have hpag := hin g hg
    have hlt := hpag.lt
    have htop := hpag.stop_lt
    rw [List.mem_range]
    omega
  have hle := (List.subperm_of_subset hnod hsub).length_le
  rwa [List.length_map, List.length_range] at hle

lemma Charged.key_ne (hbum : Bumps 1 s s') (h : Charged cfg 1 n s' s'')
    (hn : n ≤ 13 * 2 ^ 52) (hu : UntestedOk cfg s'.mGcdMemorySpaceMap S) :
    s''.mMemoryMapKey ≠ s.mMemoryMapKey := by
  intro heq
  obtain ⟨d, hd, hle⟩ := h
  have hcnt : waiting cfg s' ≤ 2 ^ 52 := hu.countP_le
  grind [Bumps, Nat.ModEq, Nat.zero_mod, Nat.mod_eq_of_lt]

lemma freeLoop_key (numberOfPages fuel : ℕ) (h : Inv cfg s) (hsta : start % efiPageSize = 0)
    (hstop : (stop + 1) % efiPageSize = 0) (hlt : start < stop) (htop : stop < 2 ^ 64)
    (hfst : ∃ before e after, findCover start s.gMemoryMap = some (before, e, after) ∧
      e.type ≠ efiConventionalMemory) :
    Ends (convertLoop (coreFreeMemoryMapStack cfg) (.type efiConventionalMemory) numberOfPages stop
        (fuel + 1) start s) (fun _ s' => s'.mMemoryMapKey ≠ s.mMemoryMapKey) Anyhow := by
  refine ends_ite (fun _ => ?_) fun hge => absurd hlt hge
  refine freeEntry_spec tends_coreFreeMemoryMapStack h hsta hstop hlt (fun hnone => ?_) ?_
  · grind
  · intro rangeEnd s₁ s₂ hlo hhi hmod _ hbum hgcd ht
    have hk : stop + 1 ≤ rangeEnd + 1 + 4096 * (2 ^ 52 - 1) := by
      simp only [efiPageSize] at hmod
      omega
    refine (freeLoop_charged (k := 2 ^ 52 - 1) tends_coreFreeMemoryMapStack ht.inv hmod hstop
      hk).imp fun _ s₃ hcha => ?_
    refine (ht.charged.trans hcha).key_ne hbum (by decide) ?_ (S := Added s)
    rw [hgcd]
    exact h.untested

lemma freeLoop_refused (hlt : start < stop)
    (hfst : ∀ before e after, findCover start s.gMemoryMap = some (before, e, after) →
      e.type = efiConventionalMemory) :
    convertLoop drain (.type efiConventionalMemory) numberOfPages stop (fuel + 1) start s =
      .ok .notFound s := by
  have hent : convertEntry (.type efiConventionalMemory) numberOfPages start stop s =
      .ok none s := by
    change (match findCover start s.gMemoryMap with
      | none => pure none
      | some (before, entry, after) =>
        convertFound (.type efiConventionalMemory) numberOfPages start stop before entry after :
      PageM (Option ℕ)) s = _
    rcases hfind : findCover start s.gMemoryMap with _ | ⟨before, e, after⟩
    · rfl
    · change convertFound _ _ _ _ _ _ _ s = _
      rw [convertFound, if_pos (refused_free.mpr (hfst before e after hfind))]
      rfl
  rw [convertLoop, if_pos hlt]
  exact bind_eq_ok.mpr ⟨none, s, hent, rfl⟩

lemma assertThat_eq_ok {p : Prop} [Decidable p] {r : Unit} :
    assertThat p s = .ok r s' ↔ p ∧ s = s' := by
  unfold assertThat
  grind [pure_eq_ok, throw_ne_ok]

lemma locked_eq_ok {α : Type} {body : PageM α} {r : α} (h : locked body s = .ok r s') :
    ∃ t, body { s with gMemoryLock := true } = .ok r t ∧ s'.gMemoryMap = t.gMemoryMap ∧
      s'.mMemoryMapKey = t.mMemoryMapKey ∧
      s'.mMemoryTypeStatistics = t.mMemoryTypeStatistics := by
  obtain ⟨_, s₁, hacq, h⟩ := bind_eq_ok.mp h
  obtain ⟨r', t, hbody, h⟩ := bind_eq_ok.mp h
  obtain ⟨_, s₂, hrel, h⟩ := bind_eq_ok.mp h
  obtain ⟨rfl, rfl⟩ := pure_eq_ok.mp h
  obtain ⟨_, _, hget, hacq⟩ := bind_eq_ok.mp hacq
  obtain ⟨rfl, rfl⟩ := get_eq_ok.mp hget
  obtain ⟨_, _, hass, hacq⟩ := bind_eq_ok.mp hacq
  obtain ⟨-, rfl⟩ := assertThat_eq_ok.mp hass
  rw [← modify_eq_ok.mp hacq] at hbody
  obtain ⟨_, _, hget, hrel⟩ := bind_eq_ok.mp hrel
  obtain ⟨rfl, rfl⟩ := get_eq_ok.mp hget
  obtain ⟨_, _, hass, hrel⟩ := bind_eq_ok.mp hrel
  obtain ⟨-, rfl⟩ := assertThat_eq_ok.mp hass
  have hlast := modify_eq_ok.mp hrel
  grind

lemma convertPages_free {before after : List MemoryMap} {e : MemoryMap} (h : Inv cfg s)
    (hfnd : findCover start s.gMemoryMap = some (before, e, after)) :
    Ends (convertPages cfg start numberOfPages efiConventionalMemory s)
      (fun status s' => (e.type = efiConventionalMemory → s' = s) ∧
        (e.type ≠ efiConventionalMemory → s'.mMemoryMapKey ≠ s.mMemoryMapKey ∧
          ((∀ a, start ≤ a → a ≤ endOfPages start numberOfPages → Allocated s.gMemoryMap a) →
            status = .success))) Anyhow := by
  have hmod := endOfPages_mod start numberOfPages
  have htop : endOfPages start numberOfPages < 2 ^ 64 := Nat.mod_lt _ (by decide)
  unfold convertPages coreConvertPages coreConvertPagesEx
  generalize endOfPages start numberOfPages = stop at hmod htop ⊢
  refine ends_bind (ends_assertThat (fun _ => ?_) trivial)
  refine ends_bind (ends_assertThat (fun hsta => ?_) trivial)
  refine ends_bind (ends_assertThat (fun hlt => ?_) trivial)
  refine ends_bind (ends_assertLocked (fun _ => ?_) trivial)
  obtain ⟨fuel, hfuel⟩ : ∃ k, stop - start = k + 1 := ⟨stop - start - 1, by omega⟩
  rw [hfuel]
  by_cases htype : e.type = efiConventionalMemory
  · grind [freeLoop_refused, ends_ok]
  · have hkey := freeLoop_key numberOfPages fuel h hsta
      (hmod hsta) hlt htop ⟨before, e, after, hfnd, htype⟩
    by_cases hall : ∀ a, start ≤ a → a ≤ stop → Allocated s.gMemoryMap a
    · have hdone := freeLoop_success numberOfPages (fuel + 1)
        tends_coreFreeMemoryMapStack h hsta (hmod hsta) hall
      exact (hkey.and hdone).mono (fun _ _ hq => ⟨fun hfree => absurd hfree htype,
        fun _ => ⟨hq.1, fun _ => hq.2⟩⟩) fun _ _ _ => trivial
    grind

/-- A call that fails has left everything as it was if and only if it was turned down at its first
descriptor. -/
theorem unchanged_coreInternalFreePages_iff (information : List TypeInformation) (s s' : State)
    (memory numberOfPages : ℕ) (status : EfiStatus) (h : Reachable cfg information s)
    (hrun : coreInternalFreePages cfg memory numberOfPages s = .ok status s')
    (herror : status.isError = true) :
    Unchanged s s' ↔ FreesWhole cfg memory numberOfPages s := by
  obtain ⟨t, hbody, hmap, hkey, hstat⟩ := locked_eq_ok hrun
  have hinv : Inv cfg { s with gMemoryLock := true } :=
    ⟨h.ready.inv.map, h.ready.inv.depth_lt, h.ready.inv.untested⟩
  obtain ⟨_, _, hget, hbody⟩ := bind_eq_ok.mp hbody
  obtain ⟨rfl, rfl⟩ := get_eq_ok.mp hget
  have hsame : t = { s with gMemoryLock := true } → Unchanged s s' := by
    rintro rfl
    exact ⟨hmap, hkey, hstat⟩
  unfold FreesWhole
  dsimp only at hbody
  rcases hfound : findCover memory s.gMemoryMap with _ | ⟨before, e, after⟩
  · rw [hfound] at hbody
    obtain ⟨-, rfl⟩ := pure_eq_ok.mp hbody
    exact iff_of_true (hsame rfl) trivial
  rw [hfound] at hbody
  dsimp only [freeCovered] at hbody ⊢
  split_ifs at hbody with haligned
  · obtain ⟨-, rfl⟩ := pure_eq_ok.mp hbody
    exact iff_of_true (hsame rfl) (.inl haligned)
  obtain ⟨hfree, halloc⟩ := (convertPages_free hinv hfound).of_ok hbody
  by_cases htype : e.type = efiConventionalMemory
  · grind
  · obtain ⟨hne, hdone⟩ := halloc htype
    refine iff_of_false (fun hun => hne (hkey.symm.trans hun.mMemoryMapKey)) ?_
    rintro (hmis | hconv | hall)
    · exact haligned hmis
    · exact htype hconv
    · rw [hdone hall] at herror
      cases herror

/-- Sixteen pages of memory, the last one taken for descriptors. -/
def sixteenPages : State :=
  Outcome.state ((Call.addMemoryDescriptor efiConventionalMemory 0x100000 16 0).perform sampleConfig
    (initialState sampleConfig [] []))

/-- The fourth page is allocated. -/
def fourthPage : Call := .allocatePages .address efiBootServicesData 1 (some 0x103000)

def fourthAllocated : State := Outcome.state (fourthPage.perform sampleConfig sixteenPages)

lemma reachable_sixteenPages : Reachable sampleConfig [] sixteenPages := by
  have hadd : Addable sampleConfig (initialState sampleConfig [] []) 0x100000
      (endOfPages 0x100000 16) := by
    refine ⟨by decide, by decide, ?_, by simp [initialState]⟩
    rw [added_initialState]
    simp
  have hrun : Returns ((Call.addMemoryDescriptor efiConventionalMemory 0x100000 16 0).perform
      sampleConfig (initialState sampleConfig [] [])) = true := by decide
  exact (Reachable.init (untestedOk_nil ∅)).call
    (.addMemoryDescriptor efiConventionalMemory 0x100000 16 0) hadd (Returns.eq_ok hrun)

/-- The fifth page is free, so a call that reaches it fails, also behind the fourth page. -/
lemma fourthPage_runs : Returns (fourthPage.perform sampleConfig sixteenPages) = true ∧
    (findCover 0x104000 fourthAllocated.gMemoryMap).map (fun found => found.2.1.type) =
      some efiConventionalMemory ∧
    returns (fun status _ => status.isError)
      (coreInternalFreePages sampleConfig 0x104000 1 fourthAllocated) = true ∧
    returns (fun status s' => status.isError ∧ s'.mMemoryMapKey ≠ fourthAllocated.mMemoryMapKey)
      (coreInternalFreePages sampleConfig 0x103000 2 fourthAllocated) = true := by
  decide +kernel

lemma reachable_fourthAllocated : Reachable sampleConfig [] fourthAllocated :=
  reachable_sixteenPages.call fourthPage trivial (Returns.eq_ok fourthPage_runs.1)

/-- The page behind the fourth one is free. -/
theorem unchanged_coreInternalFreePages_fifth :
    ∃ status s', coreInternalFreePages sampleConfig 0x104000 1 fourthAllocated = .ok status s' ∧
      status.isError = true ∧ Unchanged fourthAllocated s' := by
  obtain ⟨-, hfound, hrun, -⟩ := fourthPage_runs
  obtain ⟨status, s', hok, herror⟩ := exists_of_returns hrun
  refine ⟨status, s', hok, herror, (unchanged_coreInternalFreePages_iff [] _ _ _ _ _
    reachable_fourthAllocated hok herror).mpr ?_⟩
  grind [FreesWhole]

/-- The fourth page is freed, then the call fails as the fifth is free. -/
theorem not_unchanged_freePages :
    ∃ status s', Reachable sampleConfig [] fourthAllocated ∧
      coreInternalFreePages sampleConfig 0x103000 2 fourthAllocated = .ok status s' ∧
      status.isError = true ∧ ¬ Unchanged fourthAllocated s' := by
  obtain ⟨status, s', hok, htest⟩ := exists_of_returns fourthPage_runs.2.2.2
  obtain ⟨herror, hkey⟩ := of_decide_eq_true htest
  exact ⟨status, s', reachable_fourthAllocated, hok, herror, fun hun => hkey hun.mMemoryMapKey⟩

end Edk2.Page
