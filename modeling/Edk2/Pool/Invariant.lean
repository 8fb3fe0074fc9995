import Mathlib.Tactic.IntervalCases
import Edk2.Pool.Layout

/-!
# Allocation

A request is served from the list of its size, from a larger block that is carved up, from a new
granule, or by pages of its own. Carving keeps the blocks a tiling: all sizes are multiples of the
smallest one, so the last bin always comes out even.
-/

namespace Edk2.Pool

open Extent

variable {cfg : Config} {s s' : State} {B B' B'' : Set Block} {live : List Allocation}
  {b c : Block} {t : MemoryType} {i k n page offset offset' maxOffset : ℕ}

lemma listToSize_pos (hi : i < maxPoolList) : 128 ≤ listToSize i ∧ 128 ∣ listToSize i := by
  simp only [maxPoolList, mPoolSizeTable, List.length_cons, List.length_nil] at hi
  interval_cases i <;> decide

lemma listToSize_lt {j : ℕ} (hij : i < j) (hj : j < maxPoolList) : listToSize i < listToSize j := by
  simp only [maxPoolList, mPoolSizeTable, List.length_cons, List.length_nil] at hj
  have hi : i < 11 := by omega
  interval_cases j <;> interval_cases i <;> first | omega | decide

lemma le_listToSize {size : ℕ} (h : getPoolIndexFromSize size < maxPoolList) :
    size ≤ listToSize (getPoolIndexFromSize size) := by
  have hlt : mPoolSizeTable.findIdx (fun n => n ≥ size) < mPoolSizeTable.length := h
  have hget := List.findIdx_getElem (w := hlt)
  rw [listToSize, getPoolIndexFromSize, List.getD_eq_getElem?_getD, List.getElem?_eq_getElem hlt]
  simpa using hget

lemma listToSize_lt_of_lt {size : ℕ} (h : i < getPoolIndexFromSize size) : listToSize i < size := by
  have hlt : i < mPoolSizeTable.length := lt_of_lt_of_le h List.findIdx_le_length
  have hnot := List.not_of_lt_findIdx h
  rw [listToSize, List.getD_eq_getElem?_getD, List.getElem?_eq_getElem hlt]
  simpa using hnot

lemma limit_le : cfg.limit t ≤ maxPoolList := List.findIdx_le_length

lemma granularity_cases (cfg : Config) (t : MemoryType) :
    cfg.granularity t = 0x1000 ∨ cfg.granularity t = 0x10000 := by
  rw [Config.granularity]
  split
  · exact cfg.valid
  · exact .inl rfl

/-! ### Carving -/

/-- What is left of the space that is carved up. -/
def remainder (t : MemoryType) (page maxOffset k offset : ℕ) : Block :=
  ⟨page + offset, maxOffset - offset, t, k, .taken⟩

/-- Between two offsets the space has been carved up into free blocks. -/
structure Carved (t : MemoryType) (page maxOffset k : ℕ) (B B' : Set Block)
    (offset offset' : ℕ) : Prop where
  keeps : ∀ c ∈ B, c ≠ remainder t page maxOffset k offset → c ∈ B'
  left : offset' < maxOffset → remainder t page maxOffset k offset' ∈ B'
  taken : ∀ c ∈ B', c.use = .taken → (c ∈ B ∧ c ≠ remainder t page maxOffset k offset) ∨
    offset' < maxOffset ∧ c = remainder t page maxOffset k offset'

lemma Carved.refl (hleft : remainder t page maxOffset k offset ∈ B) (hlt : offset < maxOffset) :
    Carved t page maxOffset k B B offset offset where
  keeps _ hc _ := hc
  left _ := hleft
  taken c hc _ := by
    by_cases heq : c = remainder t page maxOffset k offset
    · exact .inr ⟨hlt, heq⟩
    · exact .inl ⟨hc, heq⟩

lemma Geometry.ne_remainder {runs : List PageRun} (h : Geometry cfg runs B)
    (hleft : remainder t page maxOffset k offset ∈ B) (hle : offset ≤ offset') (hc : c ∈ B)
    (hne : c ≠ remainder t page maxOffset k offset) :
    c ≠ remainder t page maxOffset k offset' := by
  rintro rfl
  have hpos := h.tiling.pos _ hc
  refine hne (h.tiling.eq_of_covers hc hleft (p := page + offset') ?_ ?_ ?_ ?_) <;>
    simp only [remainder, start_block, stop_block] at hpos ⊢ <;> omega

lemma Carved.trans {runs : List PageRun} {offset'' : ℕ} (hgeo : Geometry cfg runs B)
    (hleft : remainder t page maxOffset k offset ∈ B) (hle : offset ≤ offset')
    (h : Carved t page maxOffset k B B' offset offset')
    (h' : Carved t page maxOffset k B' B'' offset' offset'') :
    Carved t page maxOffset k B B'' offset offset'' where
  keeps c hc hne := h'.keeps c (h.keeps c hc hne) (hgeo.ne_remainder hleft hle hc hne)
  left := h'.left
  taken c hc hu := by
    rcases h'.taken c hc hu with ⟨hcB, hne⟩ | hlast
    · rcases h.taken c hcB hu with hold | ⟨-, heq⟩
      · exact .inl hold
      · exact absurd heq hne
    · exact .inr hlast

/-- What no step of the carving changes. -/
def SameLists (s s' : State) : Prop := s'.runs = s.runs ∧ s'.mPoolHeadList = s.mPoolHeadList

lemma SameLists.trans {s'' : State} (h : SameLists s s') (h' : SameLists s' s'') :
    SameLists s s'' :=
  ⟨h'.1.trans h.1, h'.2.trans h.2⟩

lemma Layout.carveOne (h : Layout cfg s B live) (hk : k < cfg.limit t)
    (hleft : remainder t page maxOffset k offset ∈ B) (hi : i < cfg.limit t)
    (hfit : offset + listToSize i ≤ maxOffset) :
    ∃ B', Layout cfg (insertFree s t i (page + offset)) B' live ∧
      Carved t page maxOffset k B B' offset (offset + listToSize i) := by
  have hpos := (listToSize_pos (lt_of_lt_of_le hi limit_le)).1
  have hsma : (remainder t page maxOffset k offset).Small cfg := hk
  by_cases heq : offset + listToSize i = maxOffset
  · have hput := h.put (i := i) hleft rfl hsma hi (by simp only [remainder]; omega)
    refine ⟨_, hput, ⟨fun c hc hne => .inl ⟨hc, hne⟩, fun hlt => by omega, ?_⟩⟩
    rintro c (hc | rfl) hu
    · exact .inl hc
    · cases hu
  · have hlt : listToSize i < maxOffset - offset := by omega
    have hspl := h.split (i := i) hleft rfl hsma hi (by omega : 0 < listToSize i) hlt
    set first : Block := ⟨page + offset, listToSize i, t, i, .taken⟩ with hfst
    have hrest : (⟨page + offset + listToSize i, maxOffset - offset - listToSize i, t, k, .taken⟩ :
        Block) = remainder t page maxOffset k (offset + listToSize i) := by
      simp only [remainder, Block.mk.injEq, and_true]
      omega
    have hmem : first ∈ swap B (remainder t page maxOffset k offset)
        ({first} ∪ {remainder t page maxOffset k (offset + listToSize i)}) := .inr (.inl rfl)
    simp only [remainder] at hspl
    simp only [remainder] at hrest
    rw [hrest, ← hfst] at hspl
    have hput := Layout.put (i := i) hspl hmem rfl hi hi rfl
    have hne : first ≠ remainder t page maxOffset k (offset + listToSize i) := by
      simp [hfst, remainder]
      omega
    refine ⟨_, hput, ⟨fun c hc hcne => ?_, fun _ => ?_, ?_⟩⟩
    · refine .inl ⟨.inl ⟨hc, hcne⟩, ?_⟩
      rintro rfl
      have := h.geometry.eq_of_addr hc hleft rfl
      exact hcne this
    · exact .inl ⟨.inr (.inr rfl), hne.symm⟩
    · rintro c (⟨hc | hc | hc, hcne⟩ | rfl) hu
      · exact .inl hc
      · exact absurd hc hcne
      · exact .inr ⟨by omega, hc⟩
      · cases hu

lemma carveBin_spec {fuel : ℕ} (h : Layout cfg s B live) (hk : k < cfg.limit t)
    (hleft : remainder t page maxOffset k offset ∈ B) (hlt : offset < maxOffset)
    (hi : i < cfg.limit t) (hfuel : maxOffset - offset ≤ fuel) :
    ∃ s' offset' B', carveBin t page i maxOffset fuel s offset = .ok (s', offset') ∧
      Layout cfg s' B' live ∧ Carved t page maxOffset k B B' offset offset' ∧
      SameLists s s' ∧ offset ≤ offset' ∧ offset' ≤ maxOffset ∧
      maxOffset < offset' + listToSize i ∧ listToSize i ∣ offset' - offset := by
  have hpos := (listToSize_pos (lt_of_lt_of_le hi limit_le)).1
  induction fuel generalizing s B offset with
  | zero => omega
  | succ fuel ih =>
    by_cases hfit : offset + listToSize i ≤ maxOffset
    · obtain ⟨B₁, h₁, hcar⟩ := h.carveOne hk hleft hi hfit
      have hrun : carveBin t page i maxOffset (fuel + 1) s offset = carveBin t page i maxOffset fuel
          (insertFree s t i (page + offset)) (offset + listToSize i) := by
        rw [carveBin, if_pos hfit]
      rw [hrun]
      by_cases hend : offset + listToSize i < maxOffset
      · obtain ⟨s', offset', B', hrun', h', hcar', hsame, hle, hle', hlast, hdvd⟩ :=
          ih h₁ (hcar.left hend) hend (by omega)
        refine ⟨s', offset', B', hrun', h', hcar.trans h.geometry hleft (by omega) hcar',
          hsame, by omega, hle', hlast, ?_⟩
        rw [show offset' - offset = (offset' - (offset + listToSize i)) + listToSize i by omega]
        exact Nat.dvd_add hdvd (Nat.dvd_refl _)
      · -- the space has come out even
        refine ⟨_, _, B₁, ?_, h₁, hcar, ⟨rfl, rfl⟩, by omega, hfit, by omega, ?_⟩
        · cases fuel with
          | zero => rw [carveBin, if_neg (by omega)]
          | succ fuel => rw [carveBin, if_neg (by omega)]
        · rw [Nat.add_sub_cancel_left]
    · refine ⟨s, offset, B, ?_, h, Carved.refl hleft hlt, ⟨rfl, rfl⟩, le_rfl, hlt.le, by omega, ?_⟩
      · rw [carveBin, if_neg hfit]
      · simp

lemma carve_spec (h : Layout cfg s B live) (hk : k < cfg.limit t)
    (hleft : remainder t page maxOffset k offset ∈ B) (hlt : offset < maxOffset)
    (hi : i < cfg.limit t) (hdvd : 128 ∣ maxOffset - offset) :
    ∃ s' B', carve t page maxOffset i s offset = .ok (s', maxOffset) ∧ Layout cfg s' B' live ∧
      Carved t page maxOffset k B B' offset maxOffset ∧ SameLists s s' := by
  induction i generalizing s B offset with
  | zero =>
    obtain ⟨s', offset', B', hrun, h', hcar, hsame, hle, hle', hlast, hdvd'⟩ :=
      carveBin_spec h hk hleft hlt hi (by omega : maxOffset - offset ≤ maxOffset)
    have heven : offset' = maxOffset := by
      have h128 : listToSize 0 = 128 := rfl
      rw [h128] at hlast hdvd'
      omega
    subst heven
    refine ⟨s', B', ?_, h', hcar, hsame⟩
    simp only [carve, hlt, if_true, hrun, bind, Except.bind, assertThat, le_refl, decide_true,
      pure, Except.pure]
  | succ i ih =>
    have hmax : i + 1 < maxPoolList := lt_of_lt_of_le hi limit_le
    obtain ⟨s₁, offset₁, B₁, hrun, h₁, hcar, hsame, hle, hle', hlast, hdvd'⟩ :=
      carveBin_spec h hk hleft hlt hi (by omega : maxOffset - offset ≤ maxOffset)
    have hcarv : carve t page maxOffset (i + 1) s offset = carve t page maxOffset i s₁ offset₁ := by
      simp only [carve, hlt, if_true, hrun, bind, Except.bind, assertThat, hmax, decide_true]
    rw [hcarv]
    by_cases hend : offset₁ < maxOffset
    · have hsize := (listToSize_pos hmax).2
      obtain ⟨s', B', hrun', h', hcar', hsam'⟩ :=
        ih h₁ (hcar.left hend) hend (by omega) (by
          have := hsize.trans hdvd'
          omega)
      exact ⟨s', B', hrun', h', hcar.trans h.geometry hleft hle hcar', hsame.trans hsam'⟩
    · obtain rfl : offset₁ = maxOffset := by omega
      refine ⟨s₁, B₁, ?_, h₁, hcar, hsame⟩
      cases i <;> simp [carve]

lemma carveRest_spec {j : ℕ} (h : Layout cfg s B live) (hk : k < cfg.limit t)
    (hb : ⟨page, maxOffset, t, k, .taken⟩ ∈ B)
    (honly : ∀ c ∈ B, c.use = .taken → c = ⟨page, maxOffset, t, k, .taken⟩)
    (hi : i < cfg.limit t) (hj : j < cfg.limit t) (hlt : listToSize i < maxOffset)
    (hdvd : 128 ∣ maxOffset) :
    ∃ s' B', carveRest t page maxOffset j (listToSize i) s = .ok (some page, s') ∧
      Layout cfg s' B' live ∧ SameLists s s' ∧ ⟨page, listToSize i, t, i, .taken⟩ ∈ B' ∧
      ∀ c ∈ B', c.use = .taken → c = ⟨page, listToSize i, t, i, .taken⟩ := by
  have hsize := listToSize_pos (lt_of_lt_of_le hi limit_le)
  have hspl := Layout.split (i := i) h hb rfl hk hi (by omega : 0 < listToSize i) hlt
  set head : Block := ⟨page, listToSize i, t, i, .taken⟩ with hhead
  set rest := remainder t page maxOffset k (listToSize i) with hrest
  change Layout cfg s (swap B _ ({head} ∪ {rest})) live at hspl
  obtain ⟨s', B', hrun, h', hcar, hsame⟩ := carve_spec hspl hk (.inr (.inr rfl)) hlt hj
    (Nat.dvd_sub hdvd hsize.2)
  have hne : head ≠ rest := by
    simp [hhead, hrest, remainder]
    omega
  refine ⟨s', B', ?_, h', hsame, hcar.keeps head (.inr (.inl rfl)) hne, fun c hc hu => ?_⟩
  · simp only [carveRest, hrun, bind, Except.bind, assertThat, decide_true, if_true, pure,
      Except.pure]
  · rcases hcar.taken c hc hu with ⟨⟨hcB, hcne⟩ | hc | hc, hcre⟩ | ⟨hcon, -⟩
    · exact absurd (honly c hcB hu) hcne
    · exact hc
    · exact absurd hc hcre
    · exact absurd hcon (lt_irrefl _)

/-! ### Serving a request -/

/-- What the page allocator is relied on for: pages that no one else holds, aligned, and never at
address 0, which means failure. -/
def PageOk (pages : PageAllocator) : Prop :=
  ∀ s t n g a, pages s t n g = some a → 0 < a ∧ g ∣ a ∧ a + n * efiPageSize ≤ 2 ^ 64 ∧
    ∀ r ∈ s.runs, Apart (⟨a, n, t⟩ : PageRun) r

/-- A block that has been taken for a request of a size, the only one taken. -/
structure Candidate (cfg : Config) (s : State) (B : Set Block) (live : List Allocation)
    (t : MemoryType) (size : ℕ) (b : Block) : Prop where
  layout : Layout cfg s B live
  mem : b ∈ B
  taken : b.use = .taken
  only : ∀ c ∈ B, c.use = .taken → c = b
  type_eq : b.type = t
  index_eq : b.index = getPoolIndexFromSize size
  room : size ≤ b.len
  small : b.Small cfg → b.len = listToSize b.index
  pages : ¬ b.Small cfg → b.len = noPages size (cfg.granularity b.type) * efiPageSize

/-- The pages of the block come from the page allocator. -/
def FromPages (s s' : State) (b : Block) : Prop :=
  s'.runs = s.runs ∨ ∃ r : PageRun, s'.runs = r :: s.runs ∧ r.base = b.addr ∧ 0 < r.pages

lemma noPages_pos (cfg : Config) (t : MemoryType) {size : ℕ} (hsize : 0 < size) :
    0 < noPages size (cfg.granularity t) ∧
      size ≤ noPages size (cfg.granularity t) * efiPageSize := by
  have h16 : efiSizeToPages 0x10000 = 16 := rfl
  have h1 : efiSizeToPages 0x1000 = 1 := rfl
  have hle : size ≤ efiSizeToPages size * 4096 := by
    simp only [efiSizeToPages, efiPageSize]
    split <;> omega
  rcases granularity_cases cfg t with hg | hg
  · simp only [noPages, hg, h1, efiPageSize]
    omega
  · simp only [noPages, hg, h16, efiPageSize]
    omega

lemma granule_pages (cfg : Config) (t : MemoryType) :
    0 < efiSizeToPages (cfg.granularity t) ∧
      efiSizeToPages (cfg.granularity t) * efiPageSize = cfg.granularity t := by
  rcases granularity_cases cfg t with hg | hg <;> rw [hg] <;> decide

lemma granularity_dvd : 128 ∣ cfg.granularity t := by
  rcases granularity_cases cfg t with hg | hg <;> rw [hg] <;> decide

lemma nextBin_spec (freeList : ℕ → List ℕ) (m j : ℕ) :
    j ≤ nextBin freeList m j ∧ nextBin freeList m j ≤ j + m ∧
      (nextBin freeList m j < j + m → freeList (nextBin freeList m j) ≠ []) := by
  induction m generalizing j with
  | zero => simp [nextBin]
  | succ m ih =>
    grind [nextBin]

lemma Layout.unlinkFirst (h : Layout cfg s B live) (hnone : ∀ c ∈ B, c.use ≠ .taken)
    (hne : (s.mPoolHead t).freeList i ≠ []) :
    ∃ b B' s', unlinkFirst s ((s.mPoolHead t).freeList i) = .ok (b.addr, s') ∧
      Layout cfg s' B' live ∧ b ∈ B' ∧ b.use = .taken ∧ (∀ c ∈ B', c.use = .taken → c = b) ∧
      SameLists s s' ∧ b.type = t ∧ b.index = i ∧ b.Small cfg ∧ b.len = listToSize i := by
  obtain ⟨a, rest, hlist⟩ := List.exists_cons_of_ne_nil hne
  obtain ⟨b, hb, rfl, rfl, rfl, hu⟩ := (h.free.mem t i a).mp (by rw [hlist]; exact List.mem_cons_self)
  obtain ⟨hsma, hlen⟩ := h.free.small b hb hu
  refine ⟨{ b with use := .taken }, _, _, ?_, h.take hb hu, .inr rfl, rfl, ?_, ⟨rfl, rfl⟩, rfl, rfl,
    hsma, hlen⟩
  · rw [hlist, Pool.unlinkFirst, h.free.header b hb hu]
  · rintro c (⟨hc, -⟩ | hc) hcu
    · exact absurd hcu (hnone c hc)
    · exact hc

lemma allocateBlock_spec {pages : PageAllocator} {size : ℕ} (hpag : PageOk pages)
    (h : Layout cfg s B live) (hnone : ∀ c ∈ B, c.use ≠ .taken) (hsize : 0 < size) :
    ∃ r s', allocateBlock cfg pages s t size = .ok (r, s') ∧
      s'.mPoolHeadList = s.mPoolHeadList ∧
      (r = none ∧ s' = s ∨ ∃ b B', r = some b.addr ∧ Candidate cfg s' B' live t size b ∧
        FromPages s s' b) := by
  obtain ⟨index, hind⟩ : ∃ j, getPoolIndexFromSize size = j := ⟨_, rfl⟩
  by_cases hlar : index ≥ cfg.limit t
  · -- pages for this request alone
    have hrun : allocateBlock cfg pages s t size = .ok (coreAllocatePoolPagesI pages s t
        (noPages size (cfg.granularity t)) (cfg.granularity t)) := by
      simp only [allocateBlock, hind, if_pos hlar]
    rw [hrun, coreAllocatePoolPagesI]
    cases hp : pages s t (noPages size (cfg.granularity t)) (cfg.granularity t) with
    | none => exact ⟨none, s, rfl, rfl, .inl ⟨rfl, rfl⟩⟩
    | some a =>
      obtain ⟨hpos, hdvd, hbou, hapa⟩ := hpag _ _ _ _ _ hp
      obtain ⟨hnpos, hroom⟩ := noPages_pos cfg t hsize
      have hlay := h.addRun (i := index) (r := ⟨a, noPages size (cfg.granularity t), t⟩) hnpos
        ⟨hpos, hbou⟩ hapa fun hlt => absurd hlt (not_lt.mpr hlar)
      refine ⟨_, _, rfl, rfl, .inr ⟨_, _, rfl, ⟨hlay, .inr rfl, rfl, ?_, rfl, hind.symm, hroom,
        ?_, fun _ => rfl⟩, .inr ⟨_, rfl, rfl, hnpos⟩⟩⟩
      · grind
      · intro hsma
        exact absurd hsma (not_lt.mpr hlar)
  · have hlt : index < cfg.limit t := not_le.mp hlar
    have hmax : index < maxPoolList := lt_of_lt_of_le hlt limit_le
    have hfit : size ≤ listToSize index := hind ▸ le_listToSize (hind ▸ hmax)
    by_cases hemp : (s.mPoolHead t).freeList index = []
    · set bin := nextBin (s.mPoolHead t).freeList (cfg.limit t - (index + 1)) (index + 1) with hbin
      obtain ⟨hle, hle', hne⟩ := nextBin_spec (s.mPoolHead t).freeList (cfg.limit t - (index + 1))
        (index + 1)
      rw [← hbin] at hle hle' hne
      by_cases hfnd : bin < cfg.limit t
      · -- a larger block is carved up
        obtain ⟨b, B₁, s₁, hrun₁, h₁, hb, hu, honly, hsame, rfl, hbi, hsma, hlen⟩ :=
          h.unlinkFirst (i := bin) hnone (hne (by omega))
        have hbeq : b = ⟨b.addr, listToSize bin, b.type, bin, .taken⟩ := by
          obtain ⟨addr, len, type, idx, use⟩ := b
          simp only [Block.mk.injEq, true_and] at hbi hlen hu ⊢
          exact ⟨hlen, hbi, hu⟩
        have hbinm : bin < maxPoolList := lt_of_lt_of_le hfnd limit_le
        obtain ⟨s₂, B₂, hrun₂, h₂, hsam₂, hhead, honl₂⟩ := carveRest_spec (j := bin - 1) (i := index)
          h₁ hfnd (hbeq ▸ hb) (fun c hc hcu => (honly c hc hcu).trans hbeq) hlt (by omega)
          (listToSize_lt (by omega) hbinm) (listToSize_pos hbinm).2
        refine ⟨some b.addr, s₂, ?_, (hsame.trans hsam₂).2, .inr ⟨⟨b.addr, listToSize index, b.type,
          index, .taken⟩, B₂, rfl, ⟨h₂, hhead, rfl, honl₂, rfl, hind.symm, hfit, fun _ => rfl,
          fun hns => absurd hlt hns⟩, .inl (hsame.trans hsam₂).1⟩⟩
        simp only [allocateBlock, hind, if_neg hlar, if_pos hemp, ← hbin, if_pos hfnd, hrun₁,
          bind, Except.bind, hrun₂]
      · -- a new granule is carved up
        have hbinl : bin = cfg.limit t := by omega
        cases hp : pages s t (efiSizeToPages (cfg.granularity t)) (cfg.granularity t) with
        | none =>
          simp [allocateBlock, hind, hlar, hemp, ← hbin, hfnd, coreAllocatePoolPagesI, hp]
        | some a =>
          obtain ⟨hpos, hdvd, hbou, hapa⟩ := hpag _ _ _ _ _ hp
          obtain ⟨hgpos, hgran⟩ := granule_pages cfg t
          have hlay := h.addRun (i := index) (r := ⟨a, efiSizeToPages (cfg.granularity t), t⟩)
            hgpos ⟨hpos, hbou⟩ hapa fun _ => ⟨hgran, hdvd⟩
          rw [hgran] at hlay
          obtain ⟨s₂, B₂, hrun₂, h₂, hsam₂, hhead, honl₂⟩ := carveRest_spec (j := bin - 1)
            (i := index) hlay hlt (.inr rfl) (by
              rintro c (hc | hc) hcu
              · exact absurd hcu (hnone c hc)
              · exact hc) hlt (by omega) (listToSize_lt_of_lt hlt) granularity_dvd
          refine ⟨some a, s₂, ?_, hsam₂.2, .inr ⟨⟨a, listToSize index, t, index, .taken⟩, B₂, rfl,
            ⟨h₂, hhead, rfl, honl₂, rfl, hind.symm, hfit, fun _ => rfl,
              fun hns => absurd hlt hns⟩, .inr ⟨_, hsam₂.1, rfl, hgpos⟩⟩⟩
          simp only [allocateBlock, hind, if_neg hlar, if_pos hemp, ← hbin, if_neg hfnd,
            coreAllocatePoolPagesI, hp, hrun₂]
    · -- the list of this size has a block
      obtain ⟨b, B₁, s₁, hrun₁, h₁, hb, hu, honly, hsame, rfl, hbi, hsma, hlen⟩ :=
        h.unlinkFirst (i := index) hnone hemp
      refine ⟨some b.addr, s₁, ?_, hsame.2, .inr ⟨b, B₁, rfl, ⟨h₁, hb, hu, honly, rfl,
        hbi.trans hind.symm, hlen ▸ hfit, fun _ => by rw [hlen, hbi], fun hns => absurd hsma hns⟩, .inl hsame.1⟩⟩
      simp only [allocateBlock, hind, if_neg hlar, if_neg hemp, hrun₁, bind, Except.bind, pure,
        Except.pure]

end Edk2.Pool

/-!
## The invariant of the pools

Between two operations every block is free or in use, and every run of pages holds a block in
use. The `POOL` records of OEM and OS memory types are themselves allocated from the pool, so the
requests that are served are those of the clients and one for each record.
-/

namespace Edk2.Pool

open Extent

variable {cfg : Config} {pages : PageAllocator} {s s' : State} {B : Set Block}
  {live live' clients : List Allocation} {b c : Block} {t : MemoryType} {n : ℕ}

/-- Every run of pages holds a block in use. -/
def Occupied (runs : List PageRun) (live : List Allocation) : Prop :=
  ∀ r ∈ runs, ∃ x ∈ live, r.base ≤ x.buffer ∧ x.buffer < r.base + r.pages * efiPageSize

/-- The blocks of a state between two operations. -/
structure Settled (cfg : Config) (s : State) (live : List Allocation) (B : Set Block) : Prop where
  layout : Layout cfg s B live
  none_taken : ∀ c ∈ B, c.use ≠ .taken
  occupied : Occupied s.runs live

/-- The `POOL` records as requests. -/
def poolRecords (s : State) : List Allocation :=
  s.mPoolHeadList.map fun p => ⟨p.2, sizeOfPool, efiBootServicesData⟩

/-- The list of the `POOL` records. -/
structure RecordsOk (s : State) (clients : List Allocation) : Prop where
  nodup : (s.mPoolHeadList.map Prod.fst).Nodup
  oem : ∀ t ∈ s.mPoolHeadList.map Prod.fst, memoryTypeOemReservedMin ≤ t
  known : ∀ x ∈ clients, x.type < efiMaxMemoryType ∨ x.type ∈ s.mPoolHeadList.map Prod.fst

/-- The invariant: `clients` are the requests of the clients that are being served. -/
structure PoolInv (cfg : Config) (s : State) (clients : List Allocation) : Prop where
  settled : ∃ B, Settled cfg s (clients ++ poolRecords s) B
  records : RecordsOk s clients

/-- The largest size that does not wrap around when head and tail are added. -/
def sizeMax : ℕ := 2 ^ 64 - 48

lemma adjustedSize_le (hn : n ≤ sizeMax) : n + poolOverhead ≤ adjustedSize n := by
  simp only [adjustedSize, alignVariable, u64, poolOverhead, sizeOfPoolHead, sizeOfPoolTail,
    sizeMax] at *
  omega

lemma Layout.perm (h : Layout cfg s B live) (hperm : live.Perm live') : Layout cfg s B live' where
  geometry := h.geometry
  free := h.free
  live :=
    { serves := h.live.serves
      mem := fun x => by rw [← hperm.mem_iff, h.live.mem]
      nodup := hperm.nodup_iff.mp h.live.nodup
      used := fun t => by
        rw [h.live.used, usedBy, usedBy, ((hperm.filter _).map _).sum_eq] }

lemma Settled.perm (h : Settled cfg s live B) (hperm : live.Perm live') :
    Settled cfg s live' B where
  layout := h.layout.perm hperm
  none_taken := h.none_taken
  occupied r hr := by
    obtain ⟨x, hx, hin⟩ := h.occupied r hr
    exact ⟨x, hperm.mem_iff.mp hx, hin⟩

lemma Layout.home_of_buffer (h : Layout cfg s B live) {x : Allocation} {r : PageRun}
    (hb : b ∈ B) (hbuf : b.addr + sizeOfPoolHead = x.buffer) (hu : b.use = .live x.size)
    (hr : r ∈ s.runs)
    (hin : r.base ≤ x.buffer ∧ x.buffer < r.base + r.pages * efiPageSize) : b.Home cfg r := by
  obtain ⟨r', hr', hhome⟩ := h.geometry.home b hb
  have hroom := (h.live.serves b hb _ hu).room
  have hpoi := h.geometry.tiling.inside_of_point hb hr (p := x.buffer) hin.1 hin.2
    (by simp only [start_block]; omega) (by
      simp only [stop_block, poolOverhead, sizeOfPoolHead, sizeOfPoolTail] at *
      omega)
  obtain rfl : r = r' := h.geometry.tiling.region_eq hb hr hr' hpoi hhome.inside
  exact hhome

lemma Settled.exists_of_type (h : Settled cfg s live B) (hb : b ∈ B) :
    ∃ x ∈ live, x.type = b.type := by
  obtain ⟨r, hr, hhome⟩ := h.layout.geometry.home b hb
  obtain ⟨x, hx, hin⟩ := h.occupied r hr
  obtain ⟨c, hc, hbuf, htype, hu⟩ := (h.layout.live.mem x).mp hx
  have hhom' := h.layout.home_of_buffer hc hbuf hu hr hin
  exact ⟨x, hx, by rw [← htype, ← hhom'.type_eq, hhome.type_eq]⟩

/-! ### Allocation -/

lemma allocateFromPool_spec (hpag : PageOk pages) (h : Settled cfg s live B) (hn : n ≤ sizeMax) :
    ∃ r s', allocateFromPool cfg pages s t n = .ok (r, s') ∧
      s'.mPoolHeadList = s.mPoolHeadList ∧ (∀ run ∈ s.runs, run ∈ s'.runs) ∧
      (r = none ∧ s' = s ∨ ∃ a B', r = some a ∧ Settled cfg s' (⟨a, n, t⟩ :: live) B') := by
  have hroom := adjustedSize_le hn
  have hpos : 0 < adjustedSize n := by
    simp only [poolOverhead, sizeOfPoolHead] at hroom
    omega
  obtain ⟨r, s₁, hrun, hlist, hres⟩ :=
    allocateBlock_spec (t := t) hpag h.layout h.none_taken hpos
  rcases hres with ⟨rfl, rfl⟩ | ⟨b, B₁, rfl, hcand, hfrom⟩
  · simp [allocateFromPool, hrun, bind, Except.bind, pure, Except.pure]
  · have hfill := hcand.layout.fill hcand.mem hcand.taken hcand.index_eq ⟨hroom, hcand.room⟩
      hcand.small hcand.pages
    rw [hcand.type_eq] at hfill
    refine ⟨some (b.addr + sizeOfPoolHead), fillHead s₁ t b.addr (adjustedSize n), ?_, hlist, ?_,
      .inr ⟨_, _, rfl, ⟨hfill, ?_, ?_⟩⟩⟩
    · simp only [allocateFromPool, hrun, bind, Except.bind, pure, Except.pure]
    · intro run hrun
      rcases hfrom with heq | ⟨r, heq, -⟩
      · exact heq ▸ hrun
      · exact heq ▸ List.mem_cons_of_mem _ hrun
    · rintro c (⟨hc, hne⟩ | rfl)
      · exact fun hcu => hne (hcand.only c hc hcu)
      · simp
    · intro run hmem
      have hold : run ∈ s.runs → ∃ x ∈ (⟨b.addr + sizeOfPoolHead, n, t⟩ :: live : List Allocation),
          run.base ≤ x.buffer ∧ x.buffer < run.base + run.pages * efiPageSize := by
        intro hmem'
        obtain ⟨x, hx, hin⟩ := h.occupied run hmem'
        exact ⟨x, List.mem_cons_of_mem _ hx, hin⟩
      rcases hfrom with heq | ⟨r, heq, hbase, hrpos⟩
      · exact hold (heq ▸ hmem)
      · rcases List.mem_cons.mp (heq ▸ hmem : run ∈ r :: s.runs) with rfl | hmem'
        · simp [efiPageSize, sizeOfPoolHead]
          omega
        · exact hold hmem'

lemma Settled.resetPool (h : Settled cfg s live B) (hlive : ∀ x ∈ live, x.type ≠ t)
    (l : List (MemoryType × ℕ)) :
    Settled cfg { s with mPoolHead := Function.update s.mPoolHead t emptyPool
                         mPoolHeadList := l } live B := by
  have hB : ∀ c ∈ B, c.type ≠ t := by
    intro c hc heq
    obtain ⟨x, hx, htype⟩ := h.exists_of_type hc
    exact hlive x hx (htype.trans heq)
  have hemp : ∀ i, (s.mPoolHead t).freeList i = [] := by
    intro i
    refine List.eq_nil_iff_forall_not_mem.mpr fun a ha => ?_
    obtain ⟨c, hc, -, htype, -⟩ := (h.layout.free.mem t i a).mp ha
    exact hB c hc htype
  have hused : usedBy live t = 0 := by
    grind [usedBy, List.filter_eq_nil_iff.mpr]
  refine ⟨⟨h.layout.geometry, ?_, ?_⟩, h.none_taken, h.occupied⟩
  · refine h.layout.free.congr (fun _ _ => Iff.rfl) (fun _ _ _ => rfl) fun t' i => ?_
    by_cases ht : t' = t
    · subst ht
      simp [emptyPool, hemp]
    · simp [ht]
  · refine h.layout.live.congr (fun _ _ _ => Iff.rfl) (fun c _ m _ hs => ?_) fun t' => ?_
    · exact ⟨hs.header, hs.tail, hs.index_eq, hs.room, hs.small, hs.pages⟩
    · by_cases ht : t' = t
      · subst ht
        simp [emptyPool, h.layout.live.used, hused, u64]
      · simp [ht]

lemma lookupPoolHead_spec (hpag : PageOk pages) (h : PoolInv cfg s clients) :
    ∃ found s', lookupPoolHead cfg pages s t = .ok (found, s') ∧ PoolInv cfg s' clients ∧
      (∀ run ∈ s.runs, run ∈ s'.runs) ∧
      (found = true → t < efiMaxMemoryType ∨ t ∈ s'.mPoolHeadList.map Prod.fst) := by
  by_cases hmax : t < efiMaxMemoryType
  · simp [lookupPoolHead, hmax]
    omega
  by_cases hoem : t ≥ memoryTypeOemReservedMin
  swap
  · simp [lookupPoolHead, hmax, hoem]
    omega
  by_cases hlis : t ∈ s.mPoolHeadList.map Prod.fst
  · refine ⟨true, s, ?_, h, fun _ hr => hr, fun _ => .inr hlis⟩
    rw [lookupPoolHead, if_neg hmax, if_pos hoem, if_pos hlis]
  obtain ⟨B, hset⟩ := h.settled
  obtain ⟨r, s₁, hrun, hlist, hruns, hres⟩ := allocateFromPool_spec (t := efiBootServicesData)
    (n := sizeOfPool) hpag hset (by decide)
  rcases hres with ⟨rfl, rfl⟩ | ⟨a, B', rfl, hset'⟩
  · simp [lookupPoolHead, hmax, hoem, hlis, hrun, bind, Except.bind, pure, Except.pure]
    omega
  · refine ⟨true, { s₁ with mPoolHead := Function.update s₁.mPoolHead t emptyPool
                            mPoolHeadList := (t, a) :: s₁.mPoolHeadList },
      ?_, ⟨⟨B', ?_⟩, ⟨?_, ?_, ?_⟩⟩, hruns, fun _ => .inr List.mem_cons_self⟩
    · simp [lookupPoolHead, hmax, hoem, hlis, hrun, bind, Except.bind, pure, Except.pure]
    · -- the new record is one more request, and no block is of the new type
      have hperm : (⟨a, sizeOfPool, efiBootServicesData⟩ :: (clients ++ poolRecords s)).Perm
          (clients ++ poolRecords { s₁ with
            mPoolHead := Function.update s₁.mPoolHead t emptyPool
            mPoolHeadList := (t, a) :: s₁.mPoolHeadList }) := by
        rw [poolRecords, poolRecords, List.map_cons, hlist]
        exact List.perm_middle.symm
      refine (hset'.resetPool (fun x hx heq => ?_) _).perm hperm
      have hbsd : efiBootServicesData ≠ t := by
        rintro rfl
        exact absurd hoem (by decide)
      rcases List.mem_cons.mp hx with rfl | hx
      · exact hbsd heq
      · rcases List.mem_append.mp hx with hx | hx
        · rcases h.records.known x hx with hlt | hmem
          · exact hmax (heq ▸ hlt)
          · exact hlis (heq ▸ hmem)
        · obtain ⟨p, -, rfl⟩ := List.mem_map.mp hx
          exact hbsd heq
    · rw [List.map_cons, hlist]
      exact List.nodup_cons.mpr ⟨hlis, h.records.nodup⟩
    · intro t' ht'
      rw [List.map_cons, hlist] at ht'
      rcases List.mem_cons.mp ht' with rfl | ht'
      · exact hoem
      · exact h.records.oem t' ht'
    · intro x hx
      rw [List.map_cons, hlist]
      exact (h.records.known x hx).imp_right (List.mem_cons_of_mem _)

lemma coreAllocatePoolI_spec (hpag : PageOk pages) (h : PoolInv cfg s clients)
    (hn : n ≤ sizeMax) :
    ∃ r s', coreAllocatePoolI cfg pages s t n = .ok (r, s') ∧ (∀ run ∈ s.runs, run ∈ s'.runs) ∧
      (r = none ∧ PoolInv cfg s' clients ∨
        ∃ a, r = some a ∧ PoolInv cfg s' (⟨a, n, t⟩ :: clients)) := by
  obtain ⟨found, s₁, hloo, h₁, hrun₁, hfnd⟩ := lookupPoolHead_spec (t := t) hpag h
  cases found with
  | false =>
    refine ⟨none, s₁, ?_, hrun₁, .inl ⟨rfl, h₁⟩⟩
    simp only [coreAllocatePoolI, hloo, bind, Except.bind, Bool.false_eq_true, if_false, pure,
      Except.pure]
  | true =>
    obtain ⟨B, hset⟩ := h₁.settled
    obtain ⟨r, s₂, hrun, hlist, hrun₂, hres⟩ := allocateFromPool_spec (t := t) hpag hset hn
    have hstep : coreAllocatePoolI cfg pages s t n = .ok (r, s₂) := by
      simp only [coreAllocatePoolI, hloo, bind, Except.bind, if_true, hrun]
    refine ⟨r, s₂, hstep, fun run hmem => hrun₂ run (hrun₁ run hmem), ?_⟩
    rcases hres with ⟨rfl, rfl⟩ | ⟨a, B', rfl, hset'⟩
    · exact .inl ⟨rfl, h₁⟩
    · refine .inr ⟨a, rfl, ⟨⟨B', ?_⟩, ⟨?_, ?_, ?_⟩⟩⟩
      · rw [poolRecords, hlist]
        exact hset'
      · rw [hlist]
        exact h₁.records.nodup
      · rw [hlist]
        exact h₁.records.oem
      · intro x hx
        rw [hlist]
        rcases List.mem_cons.mp hx with rfl | hx
        · exact hfnd rfl
        · exact h₁.records.known x hx

end Edk2.Pool
