import Edk2.Pool.Invariant

/-!
# Freeing

A block goes back to the list of its size; the code then walks the granule from header to header
and gives it back to the page allocator if it meets only free blocks.
-/

namespace Edk2.Pool

open Extent

variable {cfg : Config} {pages : PageAllocator} {s s' : State} {B : Set Block}
  {live clients : List Allocation} {b c : Block} {t : MemoryType} {offset : ℕ}
  {r : PageRun}

/-- The block lies in the run. -/
def Block.Within (b : Block) (r : PageRun) : Prop :=
  r.base ≤ b.addr ∧ b.addr + b.len ≤ r.base + r.pages * efiPageSize

lemma Block.Home.newPage (hhome : b.Home cfg r) (hsma : b.Small cfg) (hpos : 0 < b.len) :
    b.addr - b.addr % cfg.granularity b.type = r.base := by
  obtain ⟨hlen, hdvd⟩ := hhome.granule hsma
  obtain ⟨m, hm⟩ := hdvd
  have hin := hhome.inside
  rw [hlen] at hin
  obtain ⟨d, hd⟩ : ∃ d, b.addr = r.base + d := ⟨b.addr - r.base, by omega⟩
  have hlt : d < cfg.granularity b.type := by omega
  rw [hd, hm, Nat.mul_add_mod, Nat.mod_eq_of_lt hlt]
  omega

/-- `Offset` is where a block of the granule starts, or the end of it. -/
def Edge (B : Set Block) (r : PageRun) (offset : ℕ) : Prop :=
  r.base + offset = r.base ∨ ∃ c ∈ B, c.addr + c.len = r.base + offset

lemma Geometry.next (h : Geometry cfg s.runs B) (hr : r ∈ s.runs)
    (hlt : offset < r.pages * efiPageSize) (hedge : Edge B r offset) :
    ∃ c ∈ B, c.addr = r.base + offset ∧ c.Within r ∧
      ∀ d ∈ B, d.Within r → r.base + offset ≤ d.addr → d = c ∨ c.addr + c.len ≤ d.addr := by
  obtain ⟨c, hc, hsta, hstop⟩ := h.tiling.exists_start hr (p := r.base + offset)
    (by simp only [start_run]; omega) (by simp only [stop_run]; omega) hedge
  simp only [start_block, stop_block, stop_run] at hsta hstop
  refine ⟨c, hc, hsta, ⟨by omega, hstop⟩, fun d hd hin hle => ?_⟩
  by_cases heq : d = c
  · exact .inl heq
  · have hpos := h.tiling.pos c hc
    have hdpos := h.tiling.pos d hd
    rcases h.tiling.apart d hd c hc heq with hap | hap <;>
      simp only [start_block, stop_block] at hap hpos hdpos
    · omega
    · exact .inr hap

lemma Geometry.lt_of_within (h : Geometry cfg s.runs B) (hc : c ∈ B) (hin : c.Within r)
    (hge : r.pages * efiPageSize ≤ offset) : c.addr < r.base + offset := by
  have hpos := h.tiling.pos c hc
  simp only [start_block, stop_block] at hpos
  have := hin.2
  omega

lemma allFree_spec (fuel : ℕ) (h : Layout cfg s B live) (hnone : ∀ c ∈ B, c.use ≠ .taken) (hr : r ∈ s.runs)
    (hedge : Edge B r offset) (hfuel : r.pages * efiPageSize ≤ offset + fuel) :
    ∃ res, allFree s r.base (r.pages * efiPageSize) fuel offset = .ok res ∧
      (res = true ↔ ∀ c ∈ B, c.Within r → r.base + offset ≤ c.addr → c.use = .free) := by
  have hend : ∀ {offset}, ¬ offset < r.pages * efiPageSize →
      ∀ c ∈ B, c.Within r → r.base + offset ≤ c.addr → c.use = .free := by
    intro offset hge c hc hin hle
    exact absurd hle (not_le.mpr (h.geometry.lt_of_within hc hin (not_lt.mp hge)))
  induction fuel generalizing offset with
  | zero =>
    have hge : ¬ offset < r.pages * efiPageSize := by omega
    refine ⟨true, ?_, iff_of_true rfl (hend hge)⟩
    rw [allFree, if_neg hge]
  | succ fuel ih =>
    by_cases hlt : offset < r.pages * efiPageSize
    swap
    · refine ⟨true, ?_, iff_of_true rfl (hend hlt)⟩
      rw [allFree, if_neg hlt]
    obtain ⟨c, hc, haddr, hin, hrest⟩ := h.geometry.next hr hlt hedge
    cases hu : c.use with
    | taken => exact absurd hu (hnone c hc)
    | live m =>
      have hs := h.live.serves c hc m hu
      refine ⟨false, ?_, ?_⟩
      · rw [allFree, if_pos hlt, ← haddr, hs.header]
      · grind
    | free =>
      obtain ⟨hsma, hlen⟩ := h.free.small c hc hu
      have hmax : c.index < maxPoolList := lt_of_lt_of_le hsma limit_le
      have hpos := (listToSize_pos hmax).1
      have hrun : allFree s r.base (r.pages * efiPageSize) (fuel + 1) offset =
          allFree s r.base (r.pages * efiPageSize) fuel (offset + listToSize c.index) := by
        rw [allFree, if_pos hlt, ← haddr, h.free.header c hc hu]
        simp only [if_pos hmax]
      have hedg' : Edge B r (offset + listToSize c.index) := .inr ⟨c, hc, by omega⟩
      obtain ⟨res, hrun', hres⟩ := ih hedg' (by omega)
      refine ⟨res, hrun.trans hrun', hres.trans ?_⟩
      constructor <;> intro hall d hd hin' hle
      · grind
      · exact hall d hd hin' (by omega)

lemma removeGranule_spec (fuel : ℕ) (h : Layout cfg s B live) (hr : r ∈ s.runs)
    (hedge : Edge B r offset)
    (hbef : ∀ c ∈ B, c.Within r → c.addr < r.base + offset → c.use = .taken)
    (haft : ∀ c ∈ B, c.Within r → r.base + offset ≤ c.addr → c.use = .free)
    (hfuel : r.pages * efiPageSize ≤ offset + fuel) :
    ∃ s' B', removeGranule r.base (r.pages * efiPageSize) fuel s offset = .ok s' ∧
      Layout cfg s' B' live ∧ SameLists s s' ∧ (∀ c ∈ B', c.Within r → c.use = .taken) ∧
      ∀ c ∈ B', ¬ c.Within r → c ∈ B := by
  induction fuel generalizing s B offset with
  | zero =>
    have hge : ¬ offset < r.pages * efiPageSize := by omega
    refine ⟨s, B, ?_, h, ⟨rfl, rfl⟩, fun c hc hin => ?_, fun _ hc _ => hc⟩
    · rw [removeGranule, if_neg hge]
    · exact hbef c hc hin (h.geometry.lt_of_within hc hin (not_lt.mp hge))
  | succ fuel ih =>
    by_cases hlt : offset < r.pages * efiPageSize
    swap
    · refine ⟨s, B, ?_, h, ⟨rfl, rfl⟩, fun c hc hin => ?_, fun _ hc _ => hc⟩
      · rw [removeGranule, if_neg hlt]
      · exact hbef c hc hin (h.geometry.lt_of_within hc hin (not_lt.mp hlt))
    obtain ⟨c, hc, haddr, hin, hrest⟩ := h.geometry.next hr hlt hedge
    have hu := haft c hc hin haddr.ge
    obtain ⟨hsma, hlen⟩ := h.free.small c hc hu
    have hpos := (listToSize_pos (lt_of_lt_of_le hsma limit_le)).1
    have hrun : removeGranule r.base (r.pages * efiPageSize) (fuel + 1) s offset =
        removeGranule r.base (r.pages * efiPageSize) fuel (removeEntryList s c.addr)
          (offset + listToSize c.index) := by
      rw [removeGranule, if_pos hlt, ← haddr, h.free.header c hc hu]
    have hmem : ∀ d, d ∈ swap B c {{ c with use := .taken }} ↔
        d ∈ B ∧ d ≠ c ∨ d = { c with use := .taken } := fun d => mem_swap
    have hedg' : Edge (swap B c {{ c with use := .taken }}) r (offset + listToSize c.index) :=
      .inr ⟨{ c with use := .taken }, .inr rfl, by simp only; omega⟩
    obtain ⟨s', B', hrun', h', hsame, htak, hout⟩ := ih (h.take hc hu) hr hedg' (by
        intro d hd hin' hlt'
        rcases (hmem d).mp hd with ⟨hdB, hne⟩ | rfl
        · grind
        · rfl) (by
        intro d hd hin' hle
        rcases (hmem d).mp hd with ⟨hdB, hne⟩ | rfl
        · exact haft d hdB hin' (by omega)
        · simp only at hle
          omega) (by omega)
    refine ⟨s', B', hrun.trans hrun', h', ⟨hsame.1, hsame.2⟩, htak, fun d hd hnot => ?_⟩
    rcases (hmem d).mp (hout d hd hnot) with ⟨hdB, -⟩ | rfl
    · exact hdB
    · exact absurd hin hnot

/-! ### Giving a block back -/

/-- The block that an operation has taken, the only one, goes back to its list or to the page
allocator. -/
lemma freeBlock_spec {size : ℕ} (h : Layout cfg s B live) (hb : b ∈ B) (hu : b.use = .taken)
    (honly : ∀ c ∈ B, c.use = .taken → c = b) (hind : b.index = getPoolIndexFromSize size)
    (hsma : b.Small cfg → b.len = listToSize b.index)
    (hlar : ¬ b.Small cfg → b.len = noPages size (cfg.granularity b.type) * efiPageSize)
    (hocc : ∀ r ∈ s.runs, ¬ b.Within r →
      ∃ x ∈ live, r.base ≤ x.buffer ∧ x.buffer < r.base + r.pages * efiPageSize) :
    ∃ s' B', freeBlock cfg s b.type b.addr size = .ok s' ∧ Settled cfg s' live B' ∧
      s'.mPoolHeadList = s.mPoolHeadList ∧ ∀ r ∈ s'.runs, r ∈ s.runs := by
  obtain ⟨r, hr, hhome⟩ := h.geometry.home b hb
  have hbpos := h.geometry.tiling.pos b hb
  simp only [start_block, stop_block] at hbpos
  -- a run that is left is occupied if it is not the one of the block
  have hoth : ∀ r' ∈ s.runs, r' ≠ r → ¬ b.Within r' := by
    intro r' hr' hne hin
    exact hne (h.geometry.tiling.region_eq hb hr' hr hin hhome.inside)
  by_cases hs : b.Small cfg
  · have hlt : ¬ b.index ≥ cfg.limit b.type := not_le.mpr hs
    have hput := h.put hb hu hs hs (hsma hs)
    have hlen := (hhome.granule hs).1
    have hpage := hhome.newPage hs (by omega)
    set s₁ := insertFree s b.type b.index b.addr with hs₁
    set b' : Block := ⟨b.addr, b.len, b.type, b.index, .free⟩ with hb'
    have hnon₁ : ∀ c ∈ swap B b {b'}, c.use ≠ .taken := by
      rintro c (⟨hc, hne⟩ | rfl)
      · exact fun hcu => hne (honly c hc hcu)
      · simp [hb']
    have hr₁ : r ∈ s₁.runs := hr
    have hedge : Edge (swap B b {b'}) r 0 := .inl rfl
    obtain ⟨res, hwalk, hres⟩ := allFree_spec (cfg.granularity b.type) hput hnon₁ hr₁ hedge
      (by omega)
    rw [hlen] at hwalk
    cases res with
    | false =>
      refine ⟨s₁, swap B b {b'}, ?_, ⟨hput, hnon₁, fun r' hr' => ?_⟩, rfl, fun _ hr' => hr'⟩
      · simp [freeBlock, ← hind, hlt, hpage, ← hs₁, bind, Except.bind, hwalk, Bool.false_eq_true,
          pure, Except.pure]
      · by_cases heq : r' = r
        · -- the granule has a block that is not free
          subst heq
          have hex : ∃ c ∈ swap B b {b'}, c.Within r' ∧ c.use ≠ .free := by
            grind
          obtain ⟨c, hc, hin, hcu⟩ := hex
          cases hcuse : c.use with
          | free => exact absurd hcuse hcu
          | taken => exact absurd hcuse (hnon₁ c hc)
          | live m =>
            have hser := hput.live.serves c hc m hcuse
            refine ⟨⟨c.addr + sizeOfPoolHead, m, c.type⟩,
              (hput.live.mem _).mpr ⟨c, hc, rfl, rfl, hcuse⟩, ?_⟩
            have hroom := hser.room
            have := hin.1
            have := hin.2
            simp only [poolOverhead, sizeOfPoolHead, sizeOfPoolTail] at hroom ⊢
            omega
        · exact hocc r' hr' (hoth r' hr' heq)
    | true =>
      have hall := hres.mp rfl
      obtain ⟨s₂, B₂, hrem, h₂, hsame, htak, hout⟩ := removeGranule_spec
        (cfg.granularity b.type) hput hr₁ hedge (fun c hc hin hcl => by
          have := hin.1
          omega) hall (by omega)
      rw [hlen] at hrem
      have hr₂ : r ∈ s₂.runs := by
        rw [hsame.1]
        exact hr₁
      have hreq : (⟨r.base, efiSizeToPages (cfg.granularity b.type), b.type⟩ : PageRun) = r := by
        have hg := (granule_pages cfg b.type).2
        rw [← hlen] at hg
        have : efiSizeToPages (cfg.granularity b.type) = r.pages := by
          simp only [efiPageSize] at hg hlen
          rw [← hlen]
          omega
        rw [this, ← hhome.type_eq]
      have hdrop := h₂.dropRun hr₂ fun c hc h₁ h₂ => htak c hc ⟨h₁, h₂⟩
      refine ⟨_, _, ?_, ⟨hdrop, fun c hc => ?_, fun r' hr' => ?_⟩, ?_, fun r' hr' => ?_⟩
      · simp [freeBlock, ← hind, hlt, hpage, ← hs₁, bind, Except.bind, hwalk, hrem,
          coreFreePoolPagesI, hreq, hr₂]
      · exact hnon₁ c (hout c hc.1 hc.2)
      · have hmem := (h₂.geometry.nodup.mem_erase_iff).mp hr'
        rw [hsame.1] at hmem
        exact hocc r' hmem.2 (hoth r' hmem.2 hmem.1)
      · exact hsame.2
      · have hmem := List.mem_of_mem_erase hr'
        rw [hsame.1] at hmem
        exact hmem
  · have hge : getPoolIndexFromSize size ≥ cfg.limit b.type := by
      rw [← hind]
      exact not_lt.mp hs
    obtain ⟨hbase, hpag⟩ := hhome.whole hs
    have hlen := hlar hs
    have hreq : (⟨b.addr, noPages size (cfg.granularity b.type), b.type⟩ : PageRun) = r := by
      have : noPages size (cfg.granularity b.type) = r.pages := by
        simp only [efiPageSize] at hpag hlen
        omega
      rw [this, ← hbase, ← hhome.type_eq]
    have hdrop := h.dropRun hr fun c hc h₁ h₂ => by
      -- the block takes all of the run
      by_cases heq : c = b
      · rw [heq, hu]
      · have hpos := h.geometry.tiling.pos c hc
        rcases h.geometry.tiling.apart c hc b hb heq with hle | hle <;>
          simp only [start_block, stop_block] at hle hpos <;> omega
    refine ⟨_, _, ?_, ⟨hdrop, fun c hc hcu => ?_, fun r' hr' => ?_⟩, rfl,
      fun r' hr' => List.mem_of_mem_erase hr'⟩
    · simp only [freeBlock, if_pos hge, coreFreePoolPagesI, hreq, if_pos hr]
    · rw [honly c hc.1 hcu] at hc
      exact hc.2 hhome.inside
    · have hmem := (h.geometry.nodup.mem_erase_iff).mp hr'
      exact hocc r' hmem.2 (hoth r' hmem.2 hmem.1)

lemma Settled.freeOne (h : Settled cfg s live B) {x : Allocation} (hx : x ∈ live) :
    s.header (x.buffer - sizeOfPoolHead) = .head x.type (adjustedSize x.size) ∧
      s.tail (headToTail (x.buffer - sizeOfPoolHead) (adjustedSize x.size)) =
        some (adjustedSize x.size) ∧
      ∃ s' B', freeBlock cfg (unaccount s x.type (adjustedSize x.size)) x.type
          (x.buffer - sizeOfPoolHead) (adjustedSize x.size) = .ok s' ∧
        Settled cfg s' (live.erase x) B' ∧ s'.mPoolHeadList = s.mPoolHeadList ∧
        ∀ r ∈ s'.runs, r ∈ s.runs := by
  obtain ⟨b, hb, hbuf, htype, hu⟩ := (h.layout.live.mem x).mp hx
  have hser := h.layout.live.serves b hb _ hu
  have haddr : x.buffer - sizeOfPoolHead = b.addr := by omega
  have hxeq : (⟨b.addr + sizeOfPoolHead, x.size, b.type⟩ : Allocation) = x := by
    rw [hbuf, htype]
  have hrel := h.layout.release hb hu
  rw [hxeq] at hrel
  have hocc : ∀ r ∈ s.runs, ¬ b.Within r →
      ∃ y ∈ live.erase x, r.base ≤ y.buffer ∧ y.buffer < r.base + r.pages * efiPageSize := by
    intro r hr hnot
    obtain ⟨y, hy, hin⟩ := h.occupied r hr
    refine ⟨y, (h.layout.live.nodup.mem_erase_iff).mpr ⟨?_, hy⟩, hin⟩
    rintro rfl
    exact hnot (h.layout.home_of_buffer hb hbuf hu hr hin).inside
  obtain ⟨s', B', hrun, hset, hlist, hruns⟩ := freeBlock_spec (b := { b with use := .taken }) hrel
    (.inr rfl) rfl (fun c hc hcu => by
      rcases hc with ⟨hc, -⟩ | hc
      · exact absurd hcu (h.none_taken c hc)
      · exact hc) hser.index_eq hser.small hser.pages hocc
  rw [haddr, ← htype]
  exact ⟨hser.header, hser.tail, s', B', hrun, hset, hlist, hruns⟩

instance : Extent Allocation :=
  ⟨fun x => x.buffer - sizeOfPoolHead, fun x => x.buffer - sizeOfPoolHead + adjustedSize x.size⟩

lemma Layout.usedBy_lt (h : Layout cfg s B live) (t : MemoryType) : usedBy live t < 2 ^ 64 := by
  set l := live.filter fun x => x.type = t with hl
  have hblo : ∀ x ∈ l, ∃ b ∈ B, b.addr = x.buffer - sizeOfPoolHead ∧
      b.addr + sizeOfPoolHead = x.buffer ∧ b.use = .live x.size ∧ b.type = x.type := by
    intro x hx
    obtain ⟨b, hb, hbuf, htype, hu⟩ := (h.live.mem x).mp (List.mem_of_mem_filter hx)
    exact ⟨b, hb, by omega, hbuf, hu, htype⟩
  have hpw : l.Pairwise Apart := by
    refine ((h.live.nodup.filter _).pairwise_of_forall_ne ?_)
    intro x hx y hy hne
    obtain ⟨b, hb, hbad, hbbuf, hbu, hbt⟩ := hblo x hx
    obtain ⟨c, hc, hcad, hcbuf, hcu, hct⟩ := hblo y hy
    have hbc : b ≠ c := by
      rintro rfl
      rw [hbu] at hcu
      obtain ⟨xb, xs, xt⟩ := x
      obtain ⟨yb, ys, yt⟩ := y
      simp only [Use.live.injEq] at hbbuf hcbuf hbt hct hcu
      exact hne (by rw [← hbbuf, hcbuf, hcu, ← hbt, hct])
    have hbr := (h.live.serves b hb _ hbu).room.2
    have hcr := (h.live.serves c hc _ hcu).room.2
    rcases h.geometry.tiling.apart b hb c hc hbc with hle | hle <;>
      simp only [start_block, stop_block] at hle
    · refine .inl ?_
      change x.buffer - sizeOfPoolHead + adjustedSize x.size ≤ y.buffer - sizeOfPoolHead
      omega
    · refine .inr ?_
      change y.buffer - sizeOfPoolHead + adjustedSize y.size ≤ x.buffer - sizeOfPoolHead
      omega
  have hsum := sum_length_le 1 (2 ^ 64) l hpw fun x hx => by
    obtain ⟨b, hb, hbad, -, hbu, -⟩ := hblo x hx
    have hbou := h.geometry.block_bound hb
    have hroom := (h.live.serves b hb _ hbu).room.2
    change 1 ≤ x.buffer - sizeOfPoolHead ∧ x.buffer - sizeOfPoolHead ≤
      x.buffer - sizeOfPoolHead + adjustedSize x.size ∧
      x.buffer - sizeOfPoolHead + adjustedSize x.size ≤ 2 ^ 64
    omega
  have hmap : (l.map fun x => stop x - start x) = l.map fun x => adjustedSize x.size := by
    refine List.map_congr_left fun x _ => ?_
    exact Nat.add_sub_cancel_left _ _
  rw [hmap] at hsum
  have : usedBy live t = (l.map fun x => adjustedSize x.size).sum := rfl
  omega

lemma Layout.no_live_of_used (h : Layout cfg s B live) (hused : (s.mPoolHead t).used = 0) :
    ∀ x ∈ live, x.type ≠ t := by
  intro x hx htype
  have hlt := h.usedBy_lt t
  rw [h.live.used, u64_of_lt hlt] at hused
  have hera := usedBy_erase hx t
  rw [if_pos htype] at hera
  obtain ⟨b, hb, -, -, hu⟩ := (h.live.mem x).mp hx
  have hroom := (h.live.serves b hb _ hu).room.1
  simp only [poolOverhead, sizeOfPoolHead] at hroom
  omega

lemma Settled.setList (h : Settled cfg s live B) (l : List (MemoryType × ℕ)) :
    Settled cfg { s with mPoolHeadList := l } live B where
  layout :=
    { geometry := h.layout.geometry
      free := h.layout.free.congr (fun _ _ => Iff.rfl) (fun _ _ _ => rfl) fun _ _ => rfl
      live := h.layout.live.congr (fun _ _ _ => Iff.rfl)
        (fun _ _ _ _ hs => ⟨hs.header, hs.tail, hs.index_eq, hs.room, hs.small, hs.pages⟩)
        fun _ => rfl }
  none_taken := h.none_taken
  occupied := h.occupied

lemma lookupPoolHead_known (ht : t < efiMaxMemoryType ∨ t ∈ s.mPoolHeadList.map Prod.fst)
    (hoem : ∀ t ∈ s.mPoolHeadList.map Prod.fst, memoryTypeOemReservedMin ≤ t) :
    lookupPoolHead cfg pages s t = .ok (true, s) := by
  by_cases hmax : t < efiMaxMemoryType
  · rw [lookupPoolHead, if_pos hmax]
  · grind [lookupPoolHead]

lemma freePoolOnce_spec (pages : PageAllocator) (h : Settled cfg s live B) {x : Allocation} (hx : x ∈ live)
    (hkno : x.type < efiMaxMemoryType ∨ x.type ∈ s.mPoolHeadList.map Prod.fst)
    (hoem : ∀ t ∈ s.mPoolHeadList.map Prod.fst, memoryTypeOemReservedMin ≤ t) :
    ∃ next s' B', freePoolOnce cfg pages s x.buffer = .ok (.success, next, s') ∧
      Settled cfg s' (live.erase x) B' ∧ (∀ r ∈ s'.runs, r ∈ s.runs) ∧
      (next = none ∧ s'.mPoolHeadList = s.mPoolHeadList ∨
        ∃ pool, next = some pool ∧ memoryTypeOemReservedMin ≤ x.type ∧
          (∀ y ∈ live.erase x, y.type ≠ x.type) ∧
          s.mPoolHeadList.find? (·.1 = x.type) = some (x.type, pool) ∧
          s'.mPoolHeadList = s.mPoolHeadList.filter (·.1 ≠ x.type)) := by
  obtain ⟨hhdr, htail, s', B', hrun, hset, hlist, hruns⟩ := h.freeOne hx
  by_cases hlast : x.type ≥ memoryTypeOemReservedMin ∧ (s'.mPoolHead x.type).used = 0
  · have hmem : x.type ∈ s.mPoolHeadList.map Prod.fst := by
      refine hkno.resolve_left fun hlt => ?_
      exact absurd hlast.1 (not_le.mpr (lt_trans hlt (by decide)))
    obtain ⟨pool, hfind⟩ : ∃ pool, s.mPoolHeadList.find? (·.1 = x.type) = some (x.type, pool) := by
      obtain ⟨p, hp, hpt⟩ := List.mem_map.mp hmem
      cases hf : s.mPoolHeadList.find? (·.1 = x.type) with
      | none =>
        have := List.find?_eq_none.mp hf p hp
        simp [hpt] at this
      | some q =>
        grind
    refine ⟨some pool, { s' with mPoolHeadList := s.mPoolHeadList.filter (·.1 ≠ x.type) }, B', ?_,
      hset.setList _, hruns, .inr ⟨pool, rfl, hlast.1, hset.layout.no_live_of_used hlast.2, hfind,
        rfl⟩⟩
    simp only [freePoolOnce, hhdr, htail, bind, Except.bind, assertThat, decide_true, if_true,
      lookupPoolHead_known hkno hoem, not_true, if_false, hrun, if_pos hlast, hlist, hfind, pure,
      Except.pure]
  · refine ⟨none, s', B', ?_, hset, hruns, .inl ⟨rfl, hlist⟩⟩
    simp only [freePoolOnce, hhdr, htail, bind, Except.bind, assertThat, decide_true, if_true,
      lookupPoolHead_known hkno hoem, not_true, if_false, hrun, if_neg hlast, pure, Except.pure]

lemma perm_filter_key {l : List (MemoryType × ℕ)} (hnd : (l.map Prod.fst).Nodup) {a : ℕ}
    (hfind : l.find? (·.1 = t) = some (t, a)) : l.Perm ((t, a) :: l.filter (·.1 ≠ t)) := by
  have hmem : (t, a) ∈ l := List.mem_of_find?_eq_some hfind
  have hndl : l.Nodup := List.Nodup.of_map _ hnd
  rw [List.perm_ext_iff_of_nodup hndl
    (List.nodup_cons.mpr ⟨by simp [List.mem_filter], hndl.filter _⟩)]
  intro p
  simp only [List.mem_cons, List.mem_filter, ne_eq, decide_not, Bool.not_eq_true',
    decide_eq_false_iff_not]
  constructor
  · intro hp
    by_cases hpt : p.1 = t
    · exact .inl (List.inj_on_of_nodup_map hnd hp hmem hpt)
    · exact .inr ⟨hp, hpt⟩
  · rintro (rfl | ⟨hp, -⟩)
    · exact hmem
    · exact hp

lemma coreFreePoolI_spec (pages : PageAllocator) (h : PoolInv cfg s clients) {x : Allocation} (hx : x ∈ clients) :
    ∃ s', coreFreePoolI cfg pages s x.buffer = .ok (.success, s') ∧
      PoolInv cfg s' (clients.erase x) ∧ ∀ r ∈ s'.runs, r ∈ s.runs := by
  obtain ⟨B, hset⟩ := h.settled
  obtain ⟨next, s₁, B₁, hrun, hset₁, hrun₁, hnext⟩ := freePoolOnce_spec pages hset
    (List.mem_append_left _ hx) (h.records.known x hx) h.records.oem
  rw [List.erase_append_left _ hx] at hset₁ hnext
  rcases hnext with ⟨rfl, hlist⟩ | ⟨pool, rfl, htype, hgone, hfind, hlist⟩
  · refine ⟨s₁, ?_, ⟨⟨B₁, by rwa [poolRecords, hlist]⟩, ?_, ?_, ?_⟩, hrun₁⟩
    · simp only [coreFreePoolI, freePoolLoop, hrun, bind, Except.bind, pure, Except.pure]
    · rw [hlist]
      exact h.records.nodup
    · rw [hlist]
      exact h.records.oem
    · intro y hy
      rw [hlist]
      exact h.records.known y (List.mem_of_mem_erase hy)
  · -- the record of the type is freed in a second round
    have hperm := perm_filter_key h.records.nodup hfind
    set x' : Allocation := ⟨pool, sizeOfPool, efiBootServicesData⟩ with hx'
    have hrec : (poolRecords s).Perm (x' :: poolRecords s₁) := by
      rw [poolRecords, poolRecords, hlist]
      exact hperm.map _
    have hsub : ∀ t' ∈ s₁.mPoolHeadList.map Prod.fst, t' ∈ s.mPoolHeadList.map Prod.fst := by
      grind
    have hset₁' : Settled cfg s₁ (x' :: (clients.erase x ++ poolRecords s₁)) B₁ :=
      hset₁.perm ((hrec.append_left _).trans List.perm_middle)
    have hbsd : efiBootServicesData < efiMaxMemoryType := by decide
    obtain ⟨next₂, s₂, B₂, hrun₂, hset₂, hruns₂, hnex₂⟩ := freePoolOnce_spec pages hset₁'
      List.mem_cons_self (.inl hbsd) fun t' ht' => h.records.oem t' (hsub t' ht')
    rw [List.erase_cons_head] at hset₂
    simp only [hx'] at hrun₂
    rcases hnex₂ with ⟨rfl, hlis₂⟩ | ⟨-, -, hcon, -⟩
    swap
    · exact absurd (show memoryTypeOemReservedMin ≤ efiBootServicesData from hcon) (by decide)
    obtain ⟨m, hm⟩ : ∃ m, s.mPoolHeadList.length = m + 1 := by
      refine Nat.exists_eq_add_one_of_ne_zero fun hzero => ?_
      rw [List.eq_nil_of_length_eq_zero hzero] at hfind
      cases hfind
    refine ⟨s₂, ?_, ⟨⟨B₂, by rwa [poolRecords, hlis₂]⟩, ?_, ?_, ?_⟩,
      fun r hr => hrun₁ r (hruns₂ r hr)⟩
    · simp only [coreFreePoolI, hm, freePoolLoop, hrun, bind, Except.bind, hrun₂, pure, Except.pure]
    · rw [hlis₂, hlist]
      exact h.records.nodup.sublist (List.filter_sublist.map _)
    · rw [hlis₂]
      exact fun t' ht' => h.records.oem t' (hsub t' ht')
    · intro y hy
      rcases h.records.known y (List.mem_of_mem_erase hy) with hlt | hmem
      · exact .inl hlt
      · grind

end Edk2.Pool
