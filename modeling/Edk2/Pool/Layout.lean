import Edk2.Lib.Tiling
import Edk2.Pool.Model

/-!
# The layout of the pools

The blocks that a state of the pools stands for: they tile the pages that the pool holds, and each
is free, in use, or for the moment neither, while an operation works on it. `Layout` says how the
blocks show in the state: in the structures in memory, in the lists of free blocks and in the
accounts. The lemmas of this module say what each small step of the code does to the blocks.
-/

namespace Edk2.Pool

open Extent

/-- What a block is used for. -/
inductive Use
  | free
  /-- It serves a request of `size` bytes. -/
  | live (size : ℕ)
  /-- An operation has taken it and has not yet decided. -/
  | taken
deriving DecidableEq

structure Block where
  addr : ℕ
  len : ℕ
  type : MemoryType
  index : ℕ
  use : Use
deriving DecidableEq

instance : Extent Block := ⟨Block.addr, fun b => b.addr + b.len⟩

instance : Extent PageRun := ⟨PageRun.base, fun r => r.base + r.pages * efiPageSize⟩

/-- A request that has been served and not been freed. -/
structure Allocation where
  buffer : ℕ
  size : ℕ
  type : MemoryType
deriving DecidableEq

/-- A block of a granule, as opposed to pages that serve one request. -/
def Block.Small (cfg : Config) (b : Block) : Prop := b.index < cfg.limit b.type

/-- The page run `r` is a granule, or the block takes all of it. -/
structure Block.Home (cfg : Config) (b : Block) (r : PageRun) : Prop where
  inside : r.base ≤ b.addr ∧ b.addr + b.len ≤ r.base + r.pages * efiPageSize
  type_eq : r.type = b.type
  granule : b.Small cfg → r.pages * efiPageSize = cfg.granularity b.type ∧
    cfg.granularity b.type ∣ r.base
  whole : ¬ b.Small cfg → r.base = b.addr ∧ r.pages * efiPageSize = b.len

/-- The blocks tile the pages. -/
structure Geometry (cfg : Config) (runs : List PageRun) (B : Set Block) : Prop where
  tiling : Tiling B {r | r ∈ runs}
  nodup : runs.Nodup
  bound : ∀ r ∈ runs, 0 < r.base ∧ r.base + r.pages * efiPageSize ≤ 2 ^ 64
  home : ∀ b ∈ B, ∃ r ∈ runs, b.Home cfg r

/-- The free blocks and the lists of free blocks are the same. -/
structure FreeOk (cfg : Config) (s : State) (B : Set Block) : Prop where
  header : ∀ b ∈ B, b.use = .free → s.header b.addr = .free b.index
  small : ∀ b ∈ B, b.use = .free → b.Small cfg ∧ b.len = listToSize b.index
  mem : ∀ t i a, a ∈ (s.mPoolHead t).freeList i ↔
    ∃ b ∈ B, b.addr = a ∧ b.type = t ∧ b.index = i ∧ b.use = .free
  nodup : ∀ t i, ((s.mPoolHead t).freeList i).Nodup

/-- The block serves a request of `n` bytes. -/
structure Block.Serves (cfg : Config) (s : State) (b : Block) (n : ℕ) : Prop where
  header : s.header b.addr = .head b.type (adjustedSize n)
  tail : s.tail (headToTail b.addr (adjustedSize n)) = some (adjustedSize n)
  index_eq : b.index = getPoolIndexFromSize (adjustedSize n)
  room : n + poolOverhead ≤ adjustedSize n ∧ adjustedSize n ≤ b.len
  small : b.Small cfg → b.len = listToSize b.index
  pages : ¬ b.Small cfg →
    b.len = noPages (adjustedSize n) (cfg.granularity b.type) * efiPageSize

/-- The sum of the sizes that are accounted to a type. -/
def usedBy (live : List Allocation) (t : MemoryType) : ℕ :=
  ((live.filter fun x => x.type = t).map fun x => adjustedSize x.size).sum

/-- The blocks in use and the requests that have been served are the same. -/
structure LiveOk (cfg : Config) (s : State) (B : Set Block) (live : List Allocation) : Prop where
  serves : ∀ b ∈ B, ∀ n, b.use = .live n → b.Serves cfg s n
  mem : ∀ x, x ∈ live ↔
    ∃ b ∈ B, b.addr + sizeOfPoolHead = x.buffer ∧ b.type = x.type ∧ b.use = .live x.size
  nodup : live.Nodup
  used : ∀ t, (s.mPoolHead t).used = u64 (usedBy live t)

structure Layout (cfg : Config) (s : State) (B : Set Block) (live : List Allocation) : Prop where
  geometry : Geometry cfg s.runs B
  free : FreeOk cfg s B
  live : LiveOk cfg s B live

/-- The blocks with `N` in the place of `b`. -/
def swap (B : Set Block) (b : Block) (N : Set Block) : Set Block := (B \ {b}) ∪ N

variable {cfg : Config} {s s' : State} {B B' N : Set Block} {live : List Allocation}
  {b c : Block} {t : MemoryType} {i n : ℕ} {runs : List PageRun}

@[simp] lemma start_block : start b = b.addr := rfl
@[simp] lemma stop_block : stop b = b.addr + b.len := rfl
@[simp] lemma start_run {r : PageRun} : start r = r.base := rfl
@[simp] lemma stop_run {r : PageRun} : stop r = r.base + r.pages * efiPageSize := rfl

lemma mem_swap : c ∈ swap B b N ↔ c ∈ B ∧ c ≠ b ∨ c ∈ N := Iff.rfl

lemma Geometry.eq_of_addr (h : Geometry cfg runs B) (hb : b ∈ B) (hc : c ∈ B)
    (heq : b.addr = c.addr) : b = c :=
  h.tiling.eq_of_start hb hc heq

lemma headToTail_eq {a size len : ℕ} (hle : size ≤ len) (htail : sizeOfPoolTail ≤ size)
    (hbou : a + len ≤ 2 ^ 64) : headToTail a size = a + size - sizeOfPoolTail := by
  unfold headToTail u64 sizeOfPoolTail at *
  omega

lemma Geometry.block_bound (h : Geometry cfg runs B) (hb : b ∈ B) :
    0 < b.addr ∧ 0 < b.len ∧ b.addr + b.len ≤ 2 ^ 64 := by
  obtain ⟨r, hr, hhome⟩ := h.home b hb
  have hbou := h.bound r hr
  have hpos := h.tiling.pos b hb
  have hin := hhome.inside
  simp only [start_block, stop_block] at hpos
  omega

lemma Geometry.tail_ne (h : Geometry cfg runs B) (hb : b ∈ B) (hc : c ∈ B) (hne : b ≠ c)
    {m k : ℕ} (hm : sizeOfPoolTail ≤ m) (hmb : m ≤ b.len) (hk : sizeOfPoolTail ≤ k)
    (hkc : k ≤ c.len) : headToTail b.addr m ≠ headToTail c.addr k := by
  have hbb := h.block_bound hb
  have hcb := h.block_bound hc
  rw [headToTail_eq hmb hm hbb.2.2, headToTail_eq hkc hk hcb.2.2]
  have hap := h.tiling.apart b hb c hc hne
  simp only [Apart, start_block, stop_block, sizeOfPoolTail] at hap hm hk ⊢
  omega

lemma FreeOk.congr (h : FreeOk cfg s B) (hB : ∀ c, c.use = .free → (c ∈ B' ↔ c ∈ B))
    (hhdr : ∀ c ∈ B, c.use = .free → s'.header c.addr = s.header c.addr)
    (hlist : ∀ t i, (s'.mPoolHead t).freeList i = (s.mPoolHead t).freeList i) :
    FreeOk cfg s' B' where
  header c hc hu := by
    have hcB := (hB c hu).mp hc
    rw [hhdr c hcB hu, h.header c hcB hu]
  small c hc hu := h.small c ((hB c hu).mp hc) hu
  mem t i a := by
    rw [hlist, h.mem]
    constructor
    · grind
    · grind
  nodup t i := by
    rw [hlist]
    exact h.nodup t i

lemma LiveOk.congr (h : LiveOk cfg s B live) (hB : ∀ c n, c.use = .live n → (c ∈ B' ↔ c ∈ B))
    (hser : ∀ c ∈ B, ∀ n, c.use = .live n → c.Serves cfg s n → c.Serves cfg s' n)
    (hused : ∀ t, (s'.mPoolHead t).used = (s.mPoolHead t).used) :
    LiveOk cfg s' B' live where
  serves c hc n hu := by
    have hcB := (hB c n hu).mp hc
    exact hser c hcB n hu (h.serves c hcB n hu)
  mem x := by
    rw [h.mem]
    constructor
    · grind
    · rintro ⟨c, hc, ha, ht, hu⟩
      exact ⟨c, (hB c _ hu).mp hc, ha, ht, hu⟩
  nodup := h.nodup
  used t := by rw [hused, h.used]

/-- The blocks that take the place of a block belong to the run of that block. -/
def Heirs (cfg : Config) (b : Block) (N : Set Block) : Prop :=
  ∀ n ∈ N, n.type = b.type ∧
    (b.Small cfg ∧ n.Small cfg ∨ n.addr = b.addr ∧ n.len = b.len ∧ n.index = b.index)

lemma Geometry.swap (h : Geometry cfg runs B) (hb : b ∈ B) (hN : Tiles N b.addr (b.addr + b.len))
    (hhei : Heirs cfg b N) : Geometry cfg runs (swap B b N) where
  tiling := h.tiling.replace hb hN
  nodup := h.nodup
  bound := h.bound
  home := by
    rintro c (⟨hc, -⟩ | hc)
    · exact h.home c hc
    · obtain ⟨r, hr, hhome⟩ := h.home b hb
      obtain ⟨htype, hsma⟩ := hhei c hc
      have hin := hN.inside c hc
      simp only [start_block, stop_block] at hin
      refine ⟨r, hr, ⟨⟨hhome.inside.1.trans hin.1, hin.2.trans hhome.inside.2⟩,
        hhome.type_eq.trans htype.symm, fun hc => ?_, fun hc => ?_⟩⟩
      · rw [htype]
        rcases hsma with ⟨hb', -⟩ | ⟨-, -, hi⟩
        · exact hhome.granule hb'
        · refine hhome.granule ?_
          rwa [Block.Small, ← hi, ← htype]
      · rcases hsma with ⟨-, hc'⟩ | ⟨ha, hl, hi⟩
        · exact absurd hc' hc
        · rw [ha, hl]
          refine hhome.whole fun hb' => hc ?_
          rwa [Block.Small, hi, htype]

lemma Geometry.reuse (h : Geometry cfg runs B) (hb : b ∈ B) (u : Use) :
    Geometry cfg runs (Pool.swap B b {{ b with use := u }}) := by
  refine h.swap hb (tiles_singleton (b := { b with use := u }) (h.tiling.pos b hb)) ?_
  rintro _ rfl
  exact ⟨rfl, .inr ⟨rfl, rfl, rfl⟩⟩

lemma mem_swap_of_use (hb : b.use ≠ c.use) (hN : ∀ n ∈ N, n.use ≠ c.use) :
    c ∈ swap B b N ↔ c ∈ B := by
  rw [mem_swap]
  constructor
  · rintro (⟨hc, -⟩ | hc)
    · exact hc
    · exact absurd rfl (hN c hc)
  · intro hc
    refine .inl ⟨hc, ?_⟩
    rintro rfl
    exact hb rfl

lemma usedBy_cons (x : Allocation) (live : List Allocation) (t : MemoryType) :
    usedBy (x :: live) t = (if x.type = t then adjustedSize x.size else 0) + usedBy live t := by
  by_cases ht : x.type = t
  · simp [usedBy, ht]
  · simp [usedBy, ht]

lemma usedBy_erase {x : Allocation} (hx : x ∈ live) (t : MemoryType) :
    usedBy live t = (if x.type = t then adjustedSize x.size else 0) + usedBy (live.erase x) t := by
  have hperm := List.perm_cons_erase hx
  rw [← usedBy_cons]
  exact ((hperm.filter _).map _).sum_eq

/-! ### The steps of the code -/

lemma Layout.take (h : Layout cfg s B live) (hb : b ∈ B) (hu : b.use = .free) :
    Layout cfg (removeEntryList s b.addr) (swap B b {{ b with use := .taken }}) live where
  geometry := h.geometry.reuse hb .taken
  free := by
    have hmem : ∀ c, c.use = .free → (c ∈ swap B b {{ b with use := .taken }} ↔ c ∈ B ∧ c ≠ b) := by
      grind [mem_swap]
    refine ⟨fun c hc hcu => ?_, fun c hc hcu => ?_, fun t i a => ?_, fun t i => ?_⟩
    · exact h.free.header c ((hmem c hcu).mp hc).1 hcu
    · exact h.free.small c ((hmem c hcu).mp hc).1 hcu
    · have hlist : a ∈ ((removeEntryList s b.addr).mPoolHead t).freeList i ↔
          a ∈ (s.mPoolHead t).freeList i ∧ a ≠ b.addr := by
        simp [removeEntryList]
      rw [hlist, h.free.mem]
      constructor
      · grind
      · rintro ⟨c, hc, rfl, ht, hi, hcu⟩
        obtain ⟨hcB, hcb⟩ := (hmem c hcu).mp hc
        exact ⟨⟨c, hcB, rfl, ht, hi, hcu⟩, fun heq => hcb (h.geometry.eq_of_addr hcB hb heq)⟩
    · exact (h.free.nodup t i).filter _
  live := by
    refine h.live.congr (fun c n hc => mem_swap_of_use ?_ ?_) (fun c _ n _ hs => ?_) fun t => rfl
    · rw [hu, hc]
      simp
    · rintro _ rfl
      rw [hc]
      simp
    · exact ⟨hs.header, hs.tail, hs.index_eq, hs.room, hs.small, hs.pages⟩

lemma Layout.split (h : Layout cfg s B live) (hb : b ∈ B) (hu : b.use = .taken)
    (hsma : b.Small cfg) (hi : i < cfg.limit b.type) {m : ℕ} (hm : 0 < m) (hml : m < b.len) :
    Layout cfg s (swap B b ({⟨b.addr, m, b.type, i, .taken⟩} ∪
      {⟨b.addr + m, b.len - m, b.type, b.index, .taken⟩})) live where
  geometry := by
    refine h.geometry.swap hb ?_ ?_
    · refine tiles_union (Nat.le_add_right b.addr m) (Nat.add_le_add_left hml.le _)
        (tiles_singleton (b := (⟨b.addr, m, b.type, i, .taken⟩ : Block)) ?_) ?_
      · simpa using hm
      · grind [start_block, stop_block, tiles_singleton]
    · rintro _ (rfl | rfl)
      · exact ⟨rfl, .inl ⟨hsma, hi⟩⟩
      · exact ⟨rfl, .inl ⟨hsma, hsma⟩⟩
  free := by
    refine h.free.congr (fun c hc => mem_swap_of_use ?_ ?_) (fun _ _ _ => rfl) fun _ _ => rfl
    · rw [hu, hc]
      simp
    · rintro _ (rfl | rfl) <;> simp [hc]
  live := by
    refine h.live.congr (fun c n hc => mem_swap_of_use ?_ ?_) (fun _ _ _ _ hs => hs) fun _ => rfl
    · rw [hu, hc]
      simp
    · rintro _ (rfl | rfl) <;> simp [hc]

lemma Layout.put (h : Layout cfg s B live) (hb : b ∈ B) (hu : b.use = .taken)
    (hsma : b.Small cfg) (hi : i < cfg.limit b.type) (hlen : b.len = listToSize i) :
    Layout cfg (insertFree s b.type i b.addr)
      (swap B b {⟨b.addr, b.len, b.type, i, .free⟩}) live where
  geometry := by
    refine h.geometry.swap hb
      (tiles_singleton (b := (⟨b.addr, b.len, b.type, i, .free⟩ : Block)) ?_) ?_
    · exact h.geometry.tiling.pos b hb
    · rintro _ rfl
      exact ⟨rfl, .inl ⟨hsma, hi⟩⟩
  free := by
    set b' : Block := ⟨b.addr, b.len, b.type, i, .free⟩ with hb'
    have hmem : ∀ c, c.use = .free → (c ∈ swap B b {b'} ↔ c ∈ B ∨ c = b') := by
      grind [mem_swap]
    -- no block of a list lies at the address of the new one
    have hne : ∀ c ∈ B, c.use = .free → c.addr ≠ b.addr := by
      intro c hc hcu heq
      rw [h.geometry.eq_of_addr hc hb heq, hu] at hcu
      cases hcu
    have hlist : ∀ t j, ((insertFree s b.type i b.addr).mPoolHead t).freeList j =
        if t = b.type ∧ j = i then b.addr :: (s.mPoolHead t).freeList j
        else (s.mPoolHead t).freeList j := by
      intro t j
      by_cases ht : t = b.type
      · subst ht
        by_cases hj : j = i
        · subst hj
          simp [insertFree]
        · simp [insertFree, hj]
      · simp [insertFree, ht]
    refine ⟨fun c hc hcu => ?_, fun c hc hcu => ?_, fun t j a => ?_, fun t j => ?_⟩
    · rcases (hmem c hcu).mp hc with hc | rfl
      · simp only [insertFree, Function.update_of_ne (hne c hc hcu), h.free.header c hc hcu]
      · simp [insertFree, hb']
    · rcases (hmem c hcu).mp hc with hc | rfl
      · exact h.free.small c hc hcu
      · exact ⟨hi, hlen⟩
    · have hold : (∃ c ∈ swap B b {b'}, c.addr = a ∧ c.type = t ∧ c.index = j ∧ c.use = .free) ↔
          (∃ c ∈ B, c.addr = a ∧ c.type = t ∧ c.index = j ∧ c.use = .free) ∨
            b.addr = a ∧ b.type = t ∧ i = j := by
        constructor
        · grind
        · rintro (⟨c, hc, ha, ht, hj, hcu⟩ | ⟨ha, ht, hj⟩)
          · exact ⟨c, (hmem c hcu).mpr (.inl hc), ha, ht, hj, hcu⟩
          · exact ⟨b', (hmem b' rfl).mpr (.inr rfl), ha, ht, hj, rfl⟩
      rw [hold, ← h.free.mem, hlist]
      split
      · grind
      · grind
    · rw [hlist]
      split
      · refine List.nodup_cons.mpr ⟨fun hmem' => ?_, h.free.nodup t j⟩
        obtain ⟨c, hc, ha, -, -, hcu⟩ := (h.free.mem t j b.addr).mp hmem'
        exact hne c hc hcu ha
      · exact h.free.nodup t j
  live := by
    refine h.live.congr (fun c n hc => mem_swap_of_use ?_ ?_) (fun c hc n hcu hs => ?_) fun t => ?_
    · rw [hu, hc]
      simp
    · rintro _ rfl
      rw [hc]
      simp
    · have hne : c.addr ≠ b.addr := by
        intro heq
        rw [h.geometry.eq_of_addr hc hb heq, hu] at hcu
        cases hcu
      refine ⟨?_, hs.tail, hs.index_eq, hs.room, hs.small, hs.pages⟩
      simp only [insertFree, Function.update_of_ne hne, hs.header]
    · by_cases ht : t = b.type
      · subst ht
        simp [insertFree]
      · simp [insertFree, ht]

lemma Block.Serves.tail_le (h : b.Serves cfg s n) :
    sizeOfPoolTail ≤ adjustedSize n ∧ adjustedSize n ≤ b.len := by
  refine ⟨?_, h.room.2⟩
  have := h.room.1
  simp only [poolOverhead, sizeOfPoolHead] at this
  omega

lemma Layout.fill (h : Layout cfg s B live) (hb : b ∈ B) (hu : b.use = .taken)
    (hind : b.index = getPoolIndexFromSize (adjustedSize n))
    (hroom : n + poolOverhead ≤ adjustedSize n ∧ adjustedSize n ≤ b.len)
    (hsma : b.Small cfg → b.len = listToSize b.index)
    (hpag : ¬ b.Small cfg →
      b.len = noPages (adjustedSize n) (cfg.granularity b.type) * efiPageSize) :
    Layout cfg (fillHead s b.type b.addr (adjustedSize n))
      (swap B b {{ b with use := .live n }}) (⟨b.addr + sizeOfPoolHead, n, b.type⟩ :: live) where
  geometry := h.geometry.reuse hb (.live n)
  free := by
    refine h.free.congr (fun c hc => mem_swap_of_use ?_ ?_) (fun c hc hcu => ?_) fun t i => ?_
    · rw [hu, hc]
      simp
    · rintro _ rfl
      rw [hc]
      simp
    · have hne : c.addr ≠ b.addr := by
        intro heq
        rw [h.geometry.eq_of_addr hc hb heq, hu] at hcu
        cases hcu
      simp only [fillHead, Function.update_of_ne hne]
    · by_cases ht : t = b.type
      · subst ht
        simp [fillHead]
      · simp [fillHead, ht]
  live := by
    have hmem : ∀ c m, c.use = .live m → (c ∈ swap B b {{ b with use := .live n }} ↔
        c ∈ B ∨ c = { b with use := .live n }) := by
      intro c m hc
      rw [mem_swap]
      refine or_congr_left ⟨And.left, fun hcB => ⟨hcB, ?_⟩⟩
      rintro rfl
      rw [hu] at hc
      cases hc
    have htail : sizeOfPoolTail ≤ adjustedSize n := by
      have := hroom.1
      simp only [poolOverhead, sizeOfPoolHead] at this
      omega
    have hnew : ∀ x, (∃ c ∈ swap B b {{ b with use := .live n }},
        c.addr + sizeOfPoolHead = x.buffer ∧ c.type = x.type ∧ c.use = .live x.size) ↔
        x = ⟨b.addr + sizeOfPoolHead, n, b.type⟩ ∨ x ∈ live := by
      intro x
      rw [h.live.mem]
      constructor
      · rintro ⟨c, hc, ha, ht, hcu⟩
        rcases (hmem c _ hcu).mp hc with hc | rfl
        · exact .inr ⟨c, hc, ha, ht, hcu⟩
        · refine .inl ?_
          obtain ⟨buffer, size, type⟩ := x
          simp only [Use.live.injEq] at ha ht hcu
          rw [← ha, ← ht, ← hcu]
      · rintro (rfl | ⟨c, hc, ha, ht, hcu⟩)
        · exact ⟨_, (hmem _ n rfl).mpr (.inr rfl), rfl, rfl, rfl⟩
        · exact ⟨c, (hmem c _ hcu).mpr (.inl hc), ha, ht, hcu⟩
    refine ⟨fun c hc m hcu => ?_, fun x => ?_, ?_, fun t => ?_⟩
    · rcases (hmem c m hcu).mp hc with hc | rfl
      · have hcb : c ≠ b := by
          rintro rfl
          rw [hu] at hcu
          cases hcu
        have hne : c.addr ≠ b.addr := fun heq => hcb (h.geometry.eq_of_addr hc hb heq)
        have hs := h.live.serves c hc m hcu
        have hne' := h.geometry.tail_ne hc hb hcb hs.tail_le.1 hs.tail_le.2 htail hroom.2
        refine ⟨?_, ?_, hs.index_eq, hs.room, hs.small, hs.pages⟩
        · simp only [fillHead, Function.update_of_ne hne, hs.header]
        · simp only [fillHead, Function.update_of_ne hne', hs.tail]
      · cases hcu
        refine ⟨?_, ?_, hind, hroom, hsma, hpag⟩
        · simp [fillHead]
        · simp [fillHead]
    · rw [hnew, List.mem_cons]
    · refine List.nodup_cons.mpr ⟨fun hmem' => ?_, h.live.nodup⟩
      obtain ⟨c, hc, ha, -, hcu⟩ := (h.live.mem _).mp hmem'
      rw [h.geometry.eq_of_addr hc hb (Nat.add_right_cancel ha), hu] at hcu
      cases hcu
    · rw [usedBy_cons]
      by_cases ht : b.type = t
      · subst ht
        simp only [fillHead, Function.update_self, h.live.used, if_true]
        unfold u64
        omega
      · simp [fillHead, Function.update_of_ne (Ne.symm ht), h.live.used, ht]

lemma Layout.release (h : Layout cfg s B live) (hb : b ∈ B) (hu : b.use = .live n) :
    Layout cfg (unaccount s b.type (adjustedSize n)) (swap B b {{ b with use := .taken }})
      (live.erase ⟨b.addr + sizeOfPoolHead, n, b.type⟩) where
  geometry := h.geometry.reuse hb .taken
  free := by
    refine h.free.congr (fun c hc => mem_swap_of_use ?_ ?_) (fun _ _ _ => rfl) fun t i => ?_
    · rw [hu, hc]
      simp
    · rintro _ rfl
      rw [hc]
      simp
    · by_cases ht : t = b.type
      · subst ht
        simp [unaccount]
      · simp [unaccount, ht]
  live := by
    have hx : (⟨b.addr + sizeOfPoolHead, n, b.type⟩ : Allocation) ∈ live :=
      (h.live.mem _).mpr ⟨b, hb, rfl, rfl, hu⟩
    have hmem : ∀ c m, c.use = .live m →
        (c ∈ swap B b {{ b with use := .taken }} ↔ c ∈ B ∧ c ≠ b) := by
      intro c m hc
      rw [mem_swap]
      refine or_iff_left ?_
      rintro rfl
      cases hc
    refine ⟨fun c hc m hcu => ?_, fun x => ?_, h.live.nodup.erase _, fun t => ?_⟩
    · have hs := h.live.serves c ((hmem c m hcu).mp hc).1 m hcu
      exact ⟨hs.header, hs.tail, hs.index_eq, hs.room, hs.small, hs.pages⟩
    · rw [h.live.nodup.mem_erase_iff, h.live.mem]
      constructor
      · rintro ⟨hne, c, hc, ha, ht, hcu⟩
        refine ⟨c, (hmem c _ hcu).mpr ⟨hc, ?_⟩, ha, ht, hcu⟩
        rintro rfl
        obtain ⟨buffer, size, type⟩ := x
        rw [hu] at hcu
        cases hcu
        exact hne (by rw [ha, ht])
      · rintro ⟨c, hc, ha, ht, hcu⟩
        obtain ⟨hcB, hcb⟩ := (hmem c _ hcu).mp hc
        refine ⟨?_, c, hcB, ha, ht, hcu⟩
        rintro rfl
        exact hcb (h.geometry.eq_of_addr hcB hb (Nat.add_right_cancel ha))
    · have hold := usedBy_erase hx t
      by_cases ht : b.type = t
      · subst ht
        rw [if_pos rfl] at hold
        have hlt : adjustedSize n < 2 ^ 64 := u64_lt _
        simp only [unaccount, Function.update_self, h.live.used, hold]
        unfold u64
        omega
      · simp [ht, unaccount, Function.update_of_ne (Ne.symm ht), h.live.used, hold]

lemma Layout.addRun (h : Layout cfg s B live) {r : PageRun} (hpos : 0 < r.pages)
    (hbou : 0 < r.base ∧ r.base + r.pages * efiPageSize ≤ 2 ^ 64)
    (hapa : ∀ r' ∈ s.runs, Apart r r')
    (hgra : i < cfg.limit r.type →
      r.pages * efiPageSize = cfg.granularity r.type ∧ cfg.granularity r.type ∣ r.base) :
    Layout cfg { s with runs := r :: s.runs }
      (B ∪ {⟨r.base, r.pages * efiPageSize, r.type, i, .taken⟩}) live where
  geometry := by
    have hlt : r.base < r.base + r.pages * efiPageSize := by
      simp only [efiPageSize]
      omega
    have htil := tiles_singleton
      (b := (⟨r.base, r.pages * efiPageSize, r.type, i, .taken⟩ : Block)) hlt
    have hset : {r' | r' ∈ r :: s.runs} = insert r {r' | r' ∈ s.runs} := by
      ext r'
      simp
    refine ⟨?_, ?_, ?_, ?_⟩
    · rw [hset]
      exact h.geometry.tiling.insert htil hapa
    · refine List.nodup_cons.mpr ⟨fun hmem => ?_, h.geometry.nodup⟩
      rcases hapa r hmem with hle | hle <;> simp only [start_run, stop_run] at hle <;> omega
    · rintro r' (_ | ⟨_, hr'⟩)
      · exact hbou
      · exact h.geometry.bound r' hr'
    · rintro c (hc | rfl)
      · obtain ⟨r', hr', hhome⟩ := h.geometry.home c hc
        exact ⟨r', List.mem_cons_of_mem _ hr', hhome⟩
      · exact ⟨r, List.mem_cons_self, ⟨le_rfl, le_rfl⟩, rfl, hgra, fun _ => ⟨rfl, rfl⟩⟩
  free := by
    refine h.free.congr (fun c hc => ?_) (fun _ _ _ => rfl) fun _ _ => rfl
    refine or_iff_left ?_
    rintro rfl
    cases hc
  live := by
    refine h.live.congr (fun c n hc => ?_) (fun c _ n _ hs => ?_) fun _ => rfl
    · refine or_iff_left ?_
      rintro rfl
      cases hc
    · exact ⟨hs.header, hs.tail, hs.index_eq, hs.room, hs.small, hs.pages⟩

lemma Layout.dropRun (h : Layout cfg s B live) {r : PageRun} (hr : r ∈ s.runs)
    (htak : ∀ c ∈ B, r.base ≤ c.addr → c.addr + c.len ≤ r.base + r.pages * efiPageSize →
      c.use = .taken) :
    Layout cfg { s with runs := s.runs.erase r }
      {c | c ∈ B ∧ ¬ (r.base ≤ c.addr ∧ c.addr + c.len ≤ r.base + r.pages * efiPageSize)} live where
  geometry := by
    have hset : {r' | r' ∈ s.runs.erase r} = {r' | r' ∈ s.runs} \ {r} := by
      ext r'
      simp only [Set.mem_ofPred_eq, h.geometry.nodup.mem_erase_iff, Set.mem_sdiff,
        Set.mem_singleton_iff]
      exact and_comm
    refine ⟨?_, h.geometry.nodup.erase _, fun r' hr' => ?_, fun c hc => ?_⟩
    · rw [hset]
      exact h.geometry.tiling.remove hr
    · exact h.geometry.bound r' (List.mem_of_mem_erase hr')
    · obtain ⟨r', hr', hhome⟩ := h.geometry.home c hc.1
      refine ⟨r', (h.geometry.nodup.mem_erase_iff).mpr ⟨?_, hr'⟩, hhome⟩
      rintro rfl
      exact hc.2 hhome.inside
  free := by
    refine h.free.congr (fun c hc => and_iff_left_of_imp ?_) (fun _ _ _ => rfl) fun _ _ => rfl
    intro hcB hin
    rw [htak c hcB hin.1 hin.2] at hc
    cases hc
  live := by
    refine h.live.congr (fun c n hc => and_iff_left_of_imp ?_) (fun c _ n _ hs => ?_) fun _ => rfl
    · intro hcB hin
      rw [htak c hcB hin.1 hin.2] at hc
      cases hc
    · exact ⟨hs.header, hs.tail, hs.index_eq, hs.room, hs.small, hs.pages⟩

end Edk2.Pool
