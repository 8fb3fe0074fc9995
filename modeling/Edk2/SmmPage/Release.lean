import Edk2.SmmPage.Services

/-!
# Freeing pages and adding regions

Pages are given back into the map entry that holds them, and a region is added outside all
entries. Both keep the structures consistent when the range does not wrap around.
-/

namespace Edk2.SmmPage

open Pool (MemoryType efiRuntimeServicesCode efiRuntimeServicesData efiConventionalMemory
  assertThat)
open Extent Halting

variable {s s' s₁ : State} {owned : ℕ → Prop} {type : MemoryType} {status : EfiStatus}
  {numberOfPages memory memBase memLength a x : ℕ} {l nodes : List FreePageList}
  {attributes : BitVec 64}

lemma stop_le_of_head {before : List FreePageList} (h : FreeList before.reverse)
    (hhead : ∀ p ∈ before.head?, stop p ≤ memory) : ∀ p ∈ before, stop p ≤ memory := by
  cases before with
  | nil => simp
  | cons q before =>
    obtain ⟨hq, hprec, -⟩ := sorted_reverse_cons.mp h.sorted
    have hqm := hhead q rfl
    intro p hp
    rcases List.mem_cons.mp hp with rfl | hp
    · exact hqm
    · have := (hprec p hp).1
      omega

lemma le_start_of_head {after : List FreePageList} (h : FreeList after)
    (hhead : ∀ p ∈ after.head?, memory ≤ start p) : ∀ p ∈ after, memory ≤ start p := by
  cases after with
  | nil => simp
  | cons q after =>
    obtain ⟨hq, hprec, -⟩ := sorted_cons.mp h.sorted
    have hqm := hhead q rfl
    intro p hp
    rcases List.mem_cons.mp hp with rfl | hp
    · exact hqm
    · have := (hprec p hp).1
      omega

lemma givePages_cases (hl : FreeList s.mSmmMemoryMap)
    (hlt : memory + 4096 * numberOfPages < 2 ^ 64) :
    givePages s memory numberOfPages = .ok (.invalidParameter, s) ∨
      0 < numberOfPages ∧ 0 < memory ∧ memory % 4096 = 0 ∧
        ∃ nodes, Given s.mSmmMemoryMap nodes memory numberOfPages ∧
          givePages s memory numberOfPages = (do
            let s ← convertSmmMemoryMapEntry { s with mSmmMemoryMap := nodes }
              efiConventionalMemory memory numberOfPages
            return (.success, s)) := by
  unfold givePages
  by_cases hbad : memory % efiPageSize ≠ 0 ∨ memory = 0 ∨ numberOfPages = 0
  · rw [if_pos hbad]
    exact .inl rfl
  · rw [if_neg hbad]
    have hspl := List.takeWhile_append_dropWhile (l := s.mSmmMemoryMap)
      (p := fun pages : FreePageList => decide ¬ memory < pages.start)
    generalize hbef : (s.mSmmMemoryMap.takeWhile fun pages => ¬ memory < pages.start).reverse =
      before
    generalize s.mSmmMemoryMap.dropWhile (fun pages => ¬ memory < pages.start) = after at hspl ⊢
    rw [← List.reverse_reverse (List.takeWhile _ _), hbef] at hspl
    rw [← hspl] at hl
    dsimp only
    by_cases haft : (after.head?.any fun pages =>
        u64 (memory + efiPagesToSize numberOfPages) > pages.start) = true
    · rw [if_pos haft]
      exact .inl rfl
    · rw [if_neg haft]
      by_cases hfro : (before.head?.any fun pages =>
          u64 (pages.start + efiPagesToSize pages.numberOfPages) > memory) = true
      · rw [if_pos hfro]
        exact .inl rfl
      · rw [if_neg hfro]
        rw [add_efiPagesToSize hlt] at haft
        have hn : 0 < numberOfPages := by omega
        have hm : 0 < memory := by omega
        have hali : memory % 4096 = 0 := by
          by_contra hne
          exact hbad (.inl hne)
        have hle : ∀ p ∈ before, stop p ≤ memory := stop_le_of_head hl.append_left fun p hp => by
          have hv := (hl.append_left.valid p
            (List.mem_reverse.mpr (List.mem_of_mem_head? hp))).lt_top
          rw [Option.mem_def] at hp
          simp only [hp, Option.any_some, decide_eq_true_eq, not_lt, gt_iff_lt,
            add_efiPagesToSize hv] at hfro
          exact hfro
        have hge := le_start_of_head hl.append_right fun p hp => by
          rw [Option.mem_def] at hp
          simp only [hp, Option.any_some, decide_eq_true_eq, not_lt, gt_iff_lt] at haft
          exact haft
        obtain ⟨front, merged, nodes, hmb, hma, hgiv⟩ :=
          given_of_merge hl hn ⟨hali, hm, hlt⟩ hle hge
        rw [hspl] at hgiv
        refine .inr ⟨hn, hm, hali, front ++ nodes, hgiv, ?_⟩
        rw [hmb, ok_bind]
        dsimp only
        rw [hma, ok_bind]

/-- An entry of the map or of the list of free entries lies at the address. -/
def HoldsEntry (s : State) (address : ℕ) : Prop :=
  address ∈ s.mFreeMemoryMapEntryList ∨ ∃ e ∈ s.gMemoryMap, e.place = .heap address

/-- No map entry lies in the pages. -/
def FreeOfEntries (s : State) (memory numberOfPages : ℕ) : Prop :=
  ∀ address, HoldsEntry s address →
    memory + 4096 * numberOfPages ≤ address ∨ address + sizeOfMemoryMap ≤ memory

lemma consistent_of_given (hI : Consistent owned s)
    (hg : Given s.mSmmMemoryMap nodes memory numberOfPages) (hn : 0 < numberOfPages)
    (hlt : memory + 4096 * numberOfPages < 2 ^ 64) (hfree : FreeOfEntries s memory numberOfPages)
    (h : convertSmmMemoryMapEntry { s with mSmmMemoryMap := nodes } efiConventionalMemory memory
      numberOfPages = .ok s')
    (hsor : SortedMap s'.gMemoryMap)
    (hconv : Converted s.gMemoryMap s'.gMemoryMap efiConventionalMemory memory
      (lastAddress memory numberOfPages)) :
    Consistent (fun a => owned a ∧ ¬ InPages memory numberOfPages a) s' ∧
      s'.mSmmMemoryMap = nodes ∧
      (∀ a, Typed s' a ↔ Typed s a ∨ InPages memory numberOfPages a) := by
  have hent : ∀ address, HoldsEntry s address → Reserved owned s address →
      Reserved owned s address ∧ ∀ x, address ≤ x → x < address + sizeOfMemoryMap →
        ¬ InPages memory numberOfPages x := by
    intro address hhol hres
    refine ⟨hres, fun x hx hx' hin => ?_⟩
    rcases hfree address hhol with hle | hle
    · unfold InPages at hin
      omega
    · unfold InPages at hin
      omega
  obtain ⟨hfrom, hplac⟩ := entriesFrom_excludeRegion
    (A := fun address => Reserved owned s address ∧ ∀ x, address ≤ x →
      x < address + sizeOfMemoryMap → ¬ InPages memory numberOfPages x) h
    (fun a ha => hent a (.inl ha) (hI.freeEntries a ha)) placesIn_nil
    (fun e he a hpla => hent a (.inr ⟨e, he, hpla⟩) (hI.places e he a hpla))
    (fun e he a hpla => hent a (.inr ⟨e, he, hpla⟩) (hI.places e he a hpla))
  have hnod : s'.mSmmMemoryMap = nodes := hfrom.nodes
  have hcon' : ∀ t a, HasType s'.gMemoryMap t a ↔
      InPages memory numberOfPages a ∧ t = efiConventionalMemory ∨
        ¬ InPages memory numberOfPages a ∧ HasType s.gMemoryMap t a := by
    intro t a
    rw [hconv, inRange_lastAddress hn hlt]
  have htyp : ∀ a, Typed s' a ↔ Typed s a ∨ InPages memory numberOfPages a := by
    intro a
    simp only [Typed, hcon']
    by_cases ha : InPages memory numberOfPages a
    · simp only [ha, true_and, not_true_eq_false, false_and, or_false, exists_eq, or_true]
    · simp only [ha, false_and, not_false_eq_true, true_and, false_or, or_false]
  have hres : ∀ address, (Reserved owned s address ∧ ∀ x, address ≤ x →
      x < address + sizeOfMemoryMap → ¬ InPages memory numberOfPages x) →
      Reserved (fun a => owned a ∧ ¬ InPages memory numberOfPages a) s' address := by
    rintro address ⟨ha, hout⟩ x hx hx'
    obtain ⟨h₁, h₂, h₃⟩ := ha x hx hx'
    refine ⟨fun hf => ?_, fun ho => h₂ ho.1, (htyp x).mpr (.inl h₃)⟩
    rw [hnod, hg.isFree_iff] at hf
    exact hf.elim h₁ (hout x hx hx')
  refine ⟨⟨hnod ▸ hg.freeList, hsor, fun a => ?_, fun a ho => ?_, hfrom.free.imp hres,
    hplac.imp hres⟩, hnod, htyp⟩
  · rw [hcon', hnod, hg.isFree_iff, ← hI.agree]
    by_cases ha : InPages memory numberOfPages a
    · simp [ha]
    · simp [ha]
  · obtain ⟨h₁, h₂⟩ := hI.ownedTyped a ho.1
    refine ⟨fun hf => ?_, (htyp a).mpr (.inl h₂)⟩
    rw [hnod, hg.isFree_iff] at hf
    exact hf.elim h₁ ho.2

lemma smmFreePages_spec (hI : Consistent owned s)
    (hsou : inMemMap s memory numberOfPages = true →
      memory + 4096 * numberOfPages < 2 ^ 64 ∧ FreeOfEntries s memory numberOfPages)
    (h : smmFreePages s memory numberOfPages = .ok (status, s')) :
    (status.isError = true ∧ s' = s) ∨
      status = .success ∧
        Consistent (fun a => owned a ∧ ¬ InPages memory numberOfPages a) s' ∧
        (∀ a, Typed s' a ↔ Typed s a) ∧ s'.mMapDepth = 0 := by
  unfold smmFreePages at h
  by_cases hin : inMemMap s memory numberOfPages = true
  · rw [if_neg (not_not.mpr hin)] at h
    obtain ⟨hlt, hentr⟩ := hsou hin
    unfold smmInternalFreePages at h
    obtain ⟨⟨status₁, s₁⟩, hgive, hrest⟩ := bind_eq_ok.mp h
    dsimp only at hrest
    rcases givePages_cases hI.freeList hlt with heq | ⟨hn, -, -, nodes, hgiv, heq⟩
    · rw [heq] at hgive
      obtain ⟨rfl, rfl⟩ := Prod.mk.inj (Except.ok.inj hgive)
      rw [if_pos (by decide)] at hrest
      obtain ⟨rfl, rfl⟩ := Prod.mk.inj (pure_eq_ok.mp hrest)
      exact .inl ⟨rfl, rfl⟩
    · rw [heq] at hgive
      obtain ⟨s₂, hconv, hgive⟩ := bind_eq_ok.mp hgive
      obtain ⟨rfl, rfl⟩ := Prod.mk.inj (pure_eq_ok.mp hgive)
      rw [if_neg (by decide)] at hrest
      obtain ⟨s₃, hcore, hrest⟩ := bind_eq_ok.mp hrest
      obtain ⟨rfl, rfl⟩ := Prod.mk.inj (pure_eq_ok.mp hrest)
      -- the map check has found the entry that holds the pages
      obtain ⟨entry, hent, hche⟩ := List.any_eq_true.mp hin
      simp only [Bool.decide_and, Bool.and_eq_true, decide_eq_true_eq] at hche
      have hlast := lastAddress_eq hn hlt
      obtain ⟨hsor, hcon⟩ := excludeRegion_inside hconv rfl hI.map hent (by omega) hche.1 hche.2
      obtain ⟨hI₂, -, htyp⟩ := consistent_of_given hI hgiv hn hlt hentr hconv hsor hcon
      obtain ⟨hI', hshr, hdep⟩ := coreFreeMemoryMapStack_spec hI₂ hcore
      refine .inr ⟨rfl, hI', fun a => ?_, hdep⟩
      rw [hshr.typed, htyp, or_iff_left_iff_imp]
      intro ha
      refine ⟨entry.type, entry, hent, rfl, ?_⟩
      rw [start_memoryMap, stop_memoryMap]
      unfold InPages at ha
      omega
  · rw [if_pos hin] at h
    obtain ⟨rfl, rfl⟩ := Prod.mk.inj (Except.ok.inj h)
    exact .inl ⟨rfl, rfl⟩

/-- A region that reaches its first page boundary and ends below the top of the address space. -/
structure SoundRange (memBase memLength : ℕ) : Prop where
  lt_top : memBase + memLength < 2 ^ 64
  base_le : memBase ≤ alignedMemBase memBase
  le_end : alignedMemBase memBase ≤ memBase + memLength

/-- A region whose aligned part lies in it and below the top. One that is in use has at least one
page, and a free one does not start behind a free entry unless it lies above all entries. -/
structure SoundRegion (s : State) (memBase memLength : ℕ) (attributes : BitVec 64) : Prop where
  lt_top : memBase + memLength < 2 ^ 64
  base_le : memBase ≤ alignedMemBase memBase
  le_end : alignedMemBase memBase ≤ memBase + memLength
  pages_pos : regionType attributes ≠ efiConventionalMemory → 0 < regionPages memBase memLength
  apart : regionType attributes = efiConventionalMemory → 0 < regionPages memBase memLength →
    ∀ e ∈ s.gMemoryMap, e.IsConventional → e.stop + 1 = alignedMemBase memBase →
      ∀ f ∈ s.gMemoryMap, f.stop < alignedMemBase memBase

lemma SoundRange.inside (hr : SoundRange memBase memLength) :
    alignedMemBase memBase + 4096 * regionPages memBase memLength ≤ memBase + memLength := by
  obtain ⟨htop, hbase, hend⟩ := hr
  have hoff : sub64 (alignedMemBase memBase) memBase = alignedMemBase memBase - memBase :=
    sub64_of_le hbase (by omega)
  have hlen : sub64 memLength (alignedMemBase memBase - memBase) =
      memLength - (alignedMemBase memBase - memBase) := sub64_of_le (by omega) (by omega)
  unfold regionPages
  rw [hoff, hlen, truncateToPages_eq]
  omega

lemma SoundRegion.inside (hr : SoundRegion s memBase memLength attributes) :
    alignedMemBase memBase + 4096 * regionPages memBase memLength ≤ memBase + memLength :=
  SoundRange.inside ⟨hr.lt_top, hr.base_le, hr.le_end⟩

lemma consistent_of_used (hI : Consistent owned s) (htype : type ≠ efiConventionalMemory)
    (hn : 0 < numberOfPages) (hlt : memory + 4096 * numberOfPages < 2 ^ 64)
    (hout : ∀ a, InPages memory numberOfPages a → ¬ Typed s a)
    (h : convertSmmMemoryMapEntry s type memory numberOfPages = .ok s')
    (hsor : SortedMap s'.gMemoryMap)
    (hconv : Converted s.gMemoryMap s'.gMemoryMap type memory (lastAddress memory numberOfPages)) :
    Consistent owned s' ∧ (∀ a, Typed s' a ↔ Typed s a ∨ InPages memory numberOfPages a) := by
  obtain ⟨hfrom, hpla⟩ := entriesFrom_excludeRegion (A := Reserved owned s) h hI.freeEntries
    placesIn_nil hI.places hI.places
  have hcon' : ∀ t a, HasType s'.gMemoryMap t a ↔
      InPages memory numberOfPages a ∧ t = type ∨
        ¬ InPages memory numberOfPages a ∧ HasType s.gMemoryMap t a := by
    intro t a
    rw [hconv, inRange_lastAddress hn hlt]
  have htyp : ∀ a, Typed s' a ↔ Typed s a ∨ InPages memory numberOfPages a := by
    intro a
    simp only [Typed, hcon']
    by_cases ha : InPages memory numberOfPages a
    · simp only [ha, true_and, not_true_eq_false, false_and, or_false, exists_eq, or_true]
    · simp only [ha, false_and, not_false_eq_true, true_and, false_or, or_false]
  have hres : ∀ a, Reserved owned s a → Reserved owned s' a := by
    intro a ha x hx hx'
    obtain ⟨h₁, h₂, h₃⟩ := ha x hx hx'
    exact ⟨hfrom.nodes ▸ h₁, h₂, (htyp x).mpr (.inl h₃)⟩
  refine ⟨⟨hfrom.nodes ▸ hI.freeList, hsor, fun a => ?_, fun a ho => ?_,
    hfrom.free.imp hres, hpla.imp hres⟩, htyp⟩
  · rw [hcon', hfrom.nodes, ← hI.agree]
    have hne : ¬ efiConventionalMemory = type := fun heq => htype heq.symm
    simp only [hne, and_false, false_or, and_iff_right_iff_imp]
    exact fun hc hin => hout a hin ⟨_, hc⟩
  · obtain ⟨h₁, h₂⟩ := hI.ownedTyped a ho
    exact ⟨hfrom.nodes ▸ h₁, (htyp a).mpr (.inl h₂)⟩

lemma SortedMap.apart_of_untyped (hs : SortedMap s.gMemoryMap) (hn : 0 < numberOfPages)
    (hlt : memory + 4096 * numberOfPages < 2 ^ 64)
    (hnew : ∀ a, InPages memory numberOfPages a → ¬ Typed s a) :
    ∀ e ∈ s.gMemoryMap, e.stop < memory ∨ lastAddress memory numberOfPages < e.start := by
  intro e he
  rw [lastAddress_eq hn hlt]
  by_contra hmeet
  have hpos := hs.sorted.pos e he
  rw [start_memoryMap, stop_memoryMap] at hpos
  refine hnew (max memory e.start) ⟨le_max_left _ _, by omega⟩ ⟨e.type, e, he, rfl, ?_⟩
  rw [start_memoryMap, stop_memoryMap]
  omega

lemma Consistent.freeOfEntries (hI : Consistent owned s) (hn : 0 < numberOfPages)
    (hnew : ∀ a, InPages memory numberOfPages a → ¬ Typed s a) :
    FreeOfEntries s memory numberOfPages := by
  intro address hhol
  have hres : Reserved owned s address := by
    rcases hhol with ha | ⟨e, he, hpla⟩
    · exact hI.freeEntries address ha
    · exact hI.places e he address hpla
  by_contra hmeet
  unfold sizeOfMemoryMap at hmeet
  have hx : max memory address < address + 48 := by omega
  exact hnew (max memory address) ⟨le_max_left _ _, by omega⟩
    (hres _ (le_max_right _ _) hx).2.2

/-- `SmmAddMemoryRegion`: a region that the map does not know is added to it, but for what its
alignment leaves out. -/
lemma smmAddMemoryRegion_spec (hI : Consistent owned s)
    (hr : SoundRegion s memBase memLength attributes)
    (hout : ∀ a, memBase ≤ a → a < memBase + memLength → ¬ Typed s a)
    (h : smmAddMemoryRegion s memBase memLength attributes = .ok s') :
    Consistent owned s' ∧ s'.mMapDepth = 0 ∧
      ∀ a, Typed s' a → Typed s a ∨ memBase ≤ a ∧ a < memBase + memLength := by
  have hins := hr.inside
  obtain ⟨htop, hbase, -, hpos, hapa⟩ := hr
  unfold smmAddMemoryRegion at h
  generalize alignedMemBase memBase = base at h hins hbase hapa
  generalize regionPages memBase memLength = pages at h hins hpos hapa
  have hlt : base + 4096 * pages < 2 ^ 64 := lt_of_le_of_lt hins htop
  have hpag : ∀ a, InPages base pages a → memBase ≤ a ∧ a < memBase + memLength := fun a ha =>
    ⟨hbase.trans ha.1, lt_of_lt_of_le ha.2 hins⟩
  have hnew : ∀ a, InPages base pages a → ¬ Typed s a :=
    fun a ha => hout a (hpag a ha).1 (hpag a ha).2
  by_cases hfree : regionType attributes = efiConventionalMemory
  · rw [if_pos hfree] at h
    obtain ⟨⟨status, s₁⟩, hgive, hcore⟩ := bind_eq_ok.mp h
    dsimp only at hcore
    rcases givePages_cases hI.freeList hlt with heq | ⟨hn, -, -, nodes, hgiv, heq⟩
    · rw [heq] at hgive
      obtain ⟨rfl, rfl⟩ := Prod.mk.inj (Except.ok.inj hgive)
      obtain ⟨hI', hshr, hdep⟩ := coreFreeMemoryMapStack_spec hI hcore
      exact ⟨hI', hdep, fun a ha => .inl ((hshr.typed a).mp ha)⟩
    · rw [heq] at hgive
      obtain ⟨s₃, hconv, hgive⟩ := bind_eq_ok.mp hgive
      obtain ⟨-, rfl⟩ := Prod.mk.inj (pure_eq_ok.mp hgive)
      obtain ⟨hsor, hcon⟩ := excludeRegion_outside hconv hI.map
        (by rw [lastAddress_eq hn hlt]; omega) (by rw [lastAddress_eq hn hlt]; omega)
        (hI.map.apart_of_untyped hn hlt hnew) fun _ => hapa hfree hn
      obtain ⟨hI₂, -, htyp⟩ := consistent_of_given hI hgiv hn hlt (hI.freeOfEntries hn hnew)
        hconv hsor hcon
      obtain ⟨hI', hshr, hdep⟩ := coreFreeMemoryMapStack_spec hI₂ hcore
      refine ⟨hI'.mono fun a ho => ⟨ho, fun hin => hnew a hin (hI.ownedTyped a ho).2⟩, hdep,
        fun a ha => ?_⟩
      exact ((htyp a).mp ((hshr.typed a).mp ha)).imp_right (hpag a)
  · rw [if_neg hfree] at h
    obtain ⟨s₁, hconv, hcore⟩ := bind_eq_ok.mp h
    have hn := hpos hfree
    have hne : efiRuntimeServicesData ≠ efiConventionalMemory := by decide
    obtain ⟨hsor, hcon⟩ := excludeRegion_outside hconv hI.map
      (by rw [lastAddress_eq hn hlt]; omega) (by rw [lastAddress_eq hn hlt]; omega)
      (hI.map.apart_of_untyped hn hlt hnew) fun htype => absurd htype hne
    obtain ⟨hI₁, htyp⟩ := consistent_of_used hI hne hn hlt hnew hconv hsor hcon
    obtain ⟨hI', hshr, hdep⟩ := coreFreeMemoryMapStack_spec hI₁ hcore
    refine ⟨hI', hdep, fun a ha => ?_⟩
    exact ((htyp a).mp ((hshr.typed a).mp ha)).imp_right (hpag a)

end Edk2.SmmPage

/-!
## What the services do to the free pages

For a caller that reads no map entries only the list of free pages matters. It stays in order
whatever the map is: an allocation takes its pages from the free ones, and pages become free only
when they are given back.
-/

namespace Edk2.SmmPage

open Pool (MemoryType efiRuntimeServicesCode efiRuntimeServicesData efiConventionalMemory assertThat)
open Extent Halting

variable {s s' : State} {type : AllocateType} {memoryType : MemoryType} {status : EfiStatus}
  {numberOfPages memory memory' address : ℕ}

/-- The list of free pages is in order, and no more pages are free than before. -/
structure KeepsFree (s s' : State) : Prop where
  freeList : FreeList s'.mSmmMemoryMap
  isFree : ∀ a, IsFree s'.mSmmMemoryMap a → IsFree s.mSmmMemoryMap a

lemma KeepsFree.refl (hl : FreeList s.mSmmMemoryMap) : KeepsFree s s := ⟨hl, fun _ h => h⟩

lemma KeepsFree.trans {s₁ : State} (h : KeepsFree s s₁) (h' : KeepsFree s₁ s') : KeepsFree s s' :=
  ⟨h'.freeList, fun a ha => h.isFree a (h'.isFree a ha)⟩

lemma mSmmMemoryMap_convertSmmMemoryMapEntry {t : MemoryType}
    (h : convertSmmMemoryMapEntry s t memory numberOfPages = .ok s') :
    s'.mSmmMemoryMap = s.mSmmMemoryMap := by
  have htri : ∀ l, PlacesIn (fun _ => True) l := fun _ _ _ _ _ => trivial
  exact (entriesFrom_excludeRegion h (fun _ _ => trivial) (htri _) (htri _) (htri _)).1.nodes

lemma takePages_free (hl : FreeList s.mSmmMemoryMap) (hmem : memory < 2 ^ 64)
    (hn : 0 < numberOfPages)
    (hend : type = allocateAddress → memory + 4096 * numberOfPages < 2 ^ 64)
    (h : takePages s type memoryType numberOfPages memory = .ok (status, memory', s')) :
    KeepsFree s s' ∧ (status.isError = false →
      Taken s.mSmmMemoryMap s'.mSmmMemoryMap memory' numberOfPages) := by
  unfold takePages at h
  split_ifs at h with hbad hmany
  · obtain ⟨rfl, -, rfl⟩ : .invalidParameter = status ∧ memory = memory' ∧ s = s' := by
      simpa using h
    exact ⟨.refl hl, nofun⟩
  · obtain ⟨rfl, -, rfl⟩ : .outOfResources = status ∧ memory = memory' ∧ s = s' := by
      simpa using h
    exact ⟨.refl hl, nofun⟩
  · generalize hsea : searchPages s.mSmmMemoryMap type numberOfPages memory = found at h
    obtain ⟨status₁, nodes, address⟩ := found
    dsimp only at h
    rcases searchPages_spec hl hmem hn hend hsea with ⟨herr, rfl⟩ | ⟨rfl, ht⟩
    · rw [if_pos herr] at h
      obtain ⟨rfl, -, rfl⟩ : status₁ = status ∧ address = memory' ∧ s = s' := by simpa using h
      exact ⟨.refl hl, fun hok => by simp [herr] at hok⟩
    · rw [if_neg (by decide)] at h
      obtain ⟨s₁, hconv, hrest⟩ := bind_eq_ok.mp h
      have hnod : s₁.mSmmMemoryMap = nodes := mSmmMemoryMap_convertSmmMemoryMapEntry hconv
      obtain ⟨rfl, rfl, rfl⟩ : .success = status ∧ address = memory' ∧ s₁ = s' := by
        simpa using pure_eq_ok.mp hrest
      refine ⟨⟨hnod ▸ ht.freeList, fun a ha => ?_⟩, fun _ => hnod.symm ▸ ht⟩
      rw [hnod] at ha
      exact ((ht.isFree_iff a).mp ha).1

lemma keepsFree_allocateMemoryMapEntry (hl : FreeList s.mSmmMemoryMap)
    (h : allocateMemoryMapEntry s = .ok (address, s')) : KeepsFree s s' := by
  obtain ⟨s₁, href, h⟩ := bind_eq_ok.mp h
  have hkee : KeepsFree s s₁ := by
    unfold refillMemoryMapEntries at href
    cases hlist : s.mFreeMemoryMapEntryList with
    | cons entry rest =>
      rw [hlist] at href
      obtain rfl := Except.ok.inj href
      exact .refl hl
    | nil =>
      rw [hlist] at href
      obtain ⟨⟨status, memory, s₂⟩, htake, hrest⟩ := bind_eq_ok.mp href
      obtain ⟨⟨⟩, -, hrest⟩ := bind_eq_ok.mp hrest
      obtain rfl := pure_eq_ok.mp hrest
      obtain ⟨hkee, -⟩ := takePages_free hl (by decide) (by decide) (by decide) htake
      exact ⟨hkee.freeList, hkee.isFree⟩
  cases hlist : s₁.mFreeMemoryMapEntryList with
  | nil =>
    rw [hlist] at h
    exact nomatch h
  | cons entry rest =>
    rw [hlist] at h
    obtain ⟨-, rfl⟩ := Prod.mk.inj (pure_eq_ok.mp h)
    exact ⟨hkee.freeList, hkee.isFree⟩

lemma keepsFree_freeMemoryMapStackLoop (fuel : ℕ) (hl : FreeList s.mSmmMemoryMap)
    (h : freeMemoryMapStackLoop fuel s = .ok s') : KeepsFree s s' := by
  induction fuel generalizing s with
  | zero =>
    unfold freeMemoryMapStackLoop at h
    split_ifs at h with hzero
    obtain rfl := Except.ok.inj h
    exact .refl hl
  | succ fuel ih =>
    unfold freeMemoryMapStackLoop at h
    split_ifs at h with hzero
    · obtain ⟨⟨address, s₁⟩, hall, h⟩ := bind_eq_ok.mp h
      have hkee := keepsFree_allocateMemoryMapEntry hl hall
      dsimp only at h
      have hl₁ : FreeList ({ s₁ with
          mMapDepth := s₁.mMapDepth - 1
          gMemoryMap := s₁.gMemoryMap.map (moveToHeap (s₁.mMapDepth - 1) address) } :
            State).mSmmMemoryMap := hkee.freeList
      have hkee' := ih hl₁ h
      exact hkee.trans ⟨hkee'.freeList, hkee'.isFree⟩
    · obtain rfl := Except.ok.inj h
      exact .refl hl

lemma keepsFree_coreFreeMemoryMapStack (hl : FreeList s.mSmmMemoryMap)
    (h : coreFreeMemoryMapStack s = .ok s') : KeepsFree s s' := by
  obtain ⟨⟨⟩, -, h⟩ := bind_eq_ok.mp h
  obtain ⟨s₁, hloop, h⟩ := bind_eq_ok.mp h
  obtain rfl := pure_eq_ok.mp h
  have hl₀ : FreeList ({ s with mFreeMapStack := s.mFreeMapStack + 1 } : State).mSmmMemoryMap := hl
  have hkee := keepsFree_freeMemoryMapStackLoop _ hl₀ hloop
  exact ⟨hkee.freeList, hkee.isFree⟩

lemma smmInternalAllocatePages_free (hl : FreeList s.mSmmMemoryMap) (hn : 0 < numberOfPages)
    (h : smmInternalAllocatePages s allocateAnyPages memoryType numberOfPages 0 =
      .ok (status, memory', s')) :
    KeepsFree s s' ∧ (status.isError = false →
      memory' % 4096 = 0 ∧ 0 < memory' ∧ memory' + 4096 * numberOfPages < 2 ^ 64 ∧
        ∀ a, InPages memory' numberOfPages a →
          IsFree s.mSmmMemoryMap a ∧ ¬ IsFree s'.mSmmMemoryMap a) := by
  obtain ⟨⟨status₁, memory₁, s₁⟩, htake, h⟩ := bind_eq_ok.mp h
  obtain ⟨hkee, htak⟩ := takePages_free hl (by decide) hn
    (fun htype => absurd htype (by decide)) htake
  dsimp only at h
  split_ifs at h with herr
  · obtain ⟨rfl, -, rfl⟩ : status₁ = status ∧ memory₁ = memory' ∧ s₁ = s' := by
      simpa using pure_eq_ok.mp h
    exact ⟨hkee, fun hok => by simp [herr] at hok⟩
  · obtain ⟨s₂, hcore, hrest⟩ := bind_eq_ok.mp h
    have hkee' := keepsFree_coreFreeMemoryMapStack hkee.freeList hcore
    obtain ⟨rfl, rfl, rfl⟩ : .success = status ∧ memory₁ = memory' ∧ s₂ = s' := by
      simpa using pure_eq_ok.mp hrest
    obtain ht := htak (by simpa using herr)
    refine ⟨hkee.trans hkee', fun _ => ⟨ht.aligned, ht.pos, ht.lt_top, fun a ha => ?_⟩⟩
    exact ⟨ht.wasFree a ha, fun hfree => ((ht.isFree_iff a).mp (hkee'.isFree a hfree)).2 ha⟩

lemma givePages_free (hl : FreeList s.mSmmMemoryMap)
    (hlt : memory + 4096 * numberOfPages < 2 ^ 64)
    (h : givePages s memory numberOfPages = .ok (status, s')) :
    FreeList s'.mSmmMemoryMap ∧ ∀ a, IsFree s'.mSmmMemoryMap a →
      IsFree s.mSmmMemoryMap a ∨ status.isError = false ∧ InPages memory numberOfPages a := by
  rcases givePages_cases hl hlt with heq | ⟨-, -, -, nodes, hgiv, heq⟩
  · grind
  · obtain ⟨s₁, hconv, hrest⟩ := bind_eq_ok.mp (heq.symm.trans h)
    have hnod : s₁.mSmmMemoryMap = nodes := mSmmMemoryMap_convertSmmMemoryMapEntry hconv
    obtain ⟨rfl, rfl⟩ := Prod.mk.inj (pure_eq_ok.mp hrest)
    refine ⟨hnod ▸ hgiv.freeList, fun a ha => ?_⟩
    rw [hnod] at ha
    rcases (hgiv.isFree_iff a).mp ha with hfree | hin
    · exact .inl hfree
    · exact .inr ⟨rfl, hin⟩

lemma smmInternalFreePages_free (hl : FreeList s.mSmmMemoryMap)
    (hlt : memory + 4096 * numberOfPages < 2 ^ 64)
    (h : smmInternalFreePages s memory numberOfPages = .ok (status, s')) :
    FreeList s'.mSmmMemoryMap ∧ ∀ a, IsFree s'.mSmmMemoryMap a →
      IsFree s.mSmmMemoryMap a ∨ status.isError = false ∧ InPages memory numberOfPages a := by
  obtain ⟨⟨status₁, s₁⟩, hgive, h⟩ := bind_eq_ok.mp h
  obtain ⟨hl₁, hfree⟩ := givePages_free hl hlt hgive
  dsimp only at h
  split_ifs at h with herr
  · obtain ⟨rfl, rfl⟩ := Prod.mk.inj (pure_eq_ok.mp h)
    exact ⟨hl₁, hfree⟩
  · obtain ⟨s₂, hcore, hrest⟩ := bind_eq_ok.mp h
    have hkee := keepsFree_coreFreeMemoryMapStack hl₁ hcore
    obtain ⟨rfl, rfl⟩ := Prod.mk.inj (pure_eq_ok.mp hrest)
    refine ⟨hkee.freeList, fun a ha => ?_⟩
    rcases hfree a (hkee.isFree a ha) with hold | ⟨-, hin⟩
    · exact .inl hold
    · exact .inr ⟨rfl, hin⟩

lemma smmAddMemoryRegion_free {memBase memLength : ℕ} {attributes : BitVec 64}
    (hl : FreeList s.mSmmMemoryMap)
    (hr : regionType attributes = efiConventionalMemory → SoundRange memBase memLength)
    (h : smmAddMemoryRegion s memBase memLength attributes = .ok s') :
    FreeList s'.mSmmMemoryMap := by
  unfold smmAddMemoryRegion at h
  split_ifs at h with htype
  · obtain ⟨⟨status, s₁⟩, hgive, hcore⟩ := bind_eq_ok.mp h
    dsimp only at hcore
    have hlt : alignedMemBase memBase + 4096 * regionPages memBase memLength < 2 ^ 64 :=
      lt_of_le_of_lt (hr htype).inside (hr htype).lt_top
    exact (keepsFree_coreFreeMemoryMapStack (givePages_free hl hlt hgive).1 hcore).freeList
  · obtain ⟨s₁, hconv, hcore⟩ := bind_eq_ok.mp h
    have hl₁ : FreeList s₁.mSmmMemoryMap := mSmmMemoryMap_convertSmmMemoryMapEntry hconv ▸ hl
    exact (keepsFree_coreFreeMemoryMapStack hl₁ hcore).freeList

end Edk2.SmmPage
