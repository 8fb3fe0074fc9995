import Edk2.Pool.Free

/-!
# Runs of the pool services

A run is a sequence of `CoreInternalAllocatePool` and `CoreInternalFreePool` calls, of any types
and sizes, over a page allocator that hands out pages no one else holds or fails. The clients free
only what they have been given and have not freed before.
-/

namespace Edk2.Pool

open Extent

variable {cfg : Config} {P : MemoryType → ℕ → Prop} {s s' : State} {clients clients' : List Allocation}

/-- A call; the types and sizes that are asked for satisfy `P`. -/
inductive Step (cfg : Config) (P : MemoryType → ℕ → Prop) :
    State → List Allocation → State → List Allocation → Prop
  | allocated {s s' : State} {clients : List Allocation} {pages : PageAllocator} {lock : Bool}
      {type : MemoryType} {size a : ℕ} {status : EfiStatus} : PageOk pages → size < 2 ^ 64 →
      P type size → coreInternalAllocatePool cfg pages lock s type size = .ok (status, some a, s') →
      Step cfg P s clients s' (⟨a, size, type⟩ :: clients)
  | refused {s s' : State} {clients : List Allocation} {pages : PageAllocator} {lock : Bool}
      {type : MemoryType} {size : ℕ} {status : EfiStatus} : PageOk pages → size < 2 ^ 64 →
      P type size → coreInternalAllocatePool cfg pages lock s type size = .ok (status, none, s') →
      Step cfg P s clients s' clients
  | freed {s s' : State} {clients : List Allocation} {pages : PageAllocator} {x : Allocation}
      {status : EfiStatus} : PageOk pages → x ∈ clients →
      coreInternalFreePool cfg pages s x.buffer = .ok (status, s') →
      Step cfg P s clients s' (clients.erase x)

/-- The states of runs, with the requests of the clients that are being served. -/
inductive Reachable (cfg : Config) (P : MemoryType → ℕ → Prop) : State → List Allocation → Prop
  | init (header : ℕ → Header) (tail : ℕ → Option ℕ) :
      Reachable cfg P (coreInitializePool header tail) []
  | step {s s' : State} {clients clients' : List Allocation} : Reachable cfg P s clients →
      Step cfg P s clients s' clients' → Reachable cfg P s' clients'

/-- The blocks `B` of a state: they tile the pages of the pool, and each is in use or on the list
of its index. -/
structure PoolSound (cfg : Config) (s : State) (clients : List Allocation) (B : Set Block) :
    Prop where
  tiled : Tiling B {r | r ∈ s.runs}
  /-- A block has a size of the table, or it is all of the pages that serve one request. -/
  sizes : ∀ b ∈ B, b.index < maxPoolList ∧ b.len = listToSize b.index ∨
    ∃ r ∈ s.runs, ∃ n, r.base = b.addr ∧ r.pages * efiPageSize = b.len ∧ b.use = .live n
  /-- A block is in use or on the list of its index. -/
  used : ∀ b ∈ B, (∃ x ∈ clients ++ poolRecords s,
      b.use = .live x.size ∧ b.type = x.type ∧ b.addr + sizeOfPoolHead = x.buffer) ∨
    b.use = .free ∧ b.addr ∈ (s.mPoolHead b.type).freeList b.index
  listed : ∀ t i, ∀ a ∈ (s.mPoolHead t).freeList i,
    ∃ b ∈ B, b.use = .free ∧ b.addr = a ∧ b.type = t ∧ b.index = i
  /-- Head, buffer and tail of a request follow each other in one block. -/
  fits : ∀ x ∈ clients ++ poolRecords s, ∃ b ∈ B, b.use = .live x.size ∧
    b.addr + sizeOfPoolHead = x.buffer ∧ x.size + poolOverhead ≤ b.len ∧
    x.buffer + x.size ≤ headToTail b.addr (adjustedSize x.size) ∧
    headToTail b.addr (adjustedSize x.size) + sizeOfPoolTail ≤ b.addr + b.len
  apart : ∀ x ∈ clients ++ poolRecords s, ∀ y ∈ clients ++ poolRecords s, x ≠ y → Apart x y
  apart_free : ∀ x ∈ clients ++ poolRecords s, ∀ t i, ∀ a ∈ (s.mPoolHead t).freeList i,
    stop x ≤ a ∨ a + listToSize i ≤ start x
  /-- No run of pages is held without a request in it. -/
  occupied : Occupied s.runs (clients ++ poolRecords s)

/-- Pages are given back exactly when no request is served from them any more. -/
def GivenBack (s s' : State) (clients' : List Allocation) : Prop :=
  ∀ r ∈ s.runs, r ∉ s'.runs ↔ ∀ x ∈ clients' ++ poolRecords s',
    ¬ (r.base ≤ x.buffer ∧ x.buffer < r.base + r.pages * efiPageSize)

/-- The request is refused at once, or its size does not wrap around. -/
def NoWrap (type : MemoryType) (size : ℕ) : Prop :=
  InvalidPoolType type ∨ size ≤ sizeMax ∨ maxPoolSize < size

lemma poolInv_init (cfg : Config) (header : ℕ → Header) (tail : ℕ → Option ℕ) :
    PoolInv cfg (coreInitializePool header tail) [] where
  settled := by
    refine ⟨∅, ⟨⟨⟨⟨?_, ?_, ?_, ?_, ?_⟩, List.nodup_nil, ?_, ?_⟩, ⟨?_, ?_, ?_, ?_⟩, ⟨?_, ?_, ?_, ?_⟩⟩,
      ?_, ?_⟩⟩
    all_goals simp [coreInitializePool, emptyPool, poolRecords, usedBy, u64, Occupied]
  records := ⟨by simp [coreInitializePool], by simp [coreInitializePool], by simp⟩

lemma PoolInv.sound (h : PoolInv cfg s clients) : ∃ B, PoolSound cfg s clients B := by
  obtain ⟨B, hset⟩ := h.settled
  have hl := hset.layout
  have hblo : ∀ x ∈ clients ++ poolRecords s, ∃ b ∈ B, b.addr + sizeOfPoolHead = x.buffer ∧
      b.type = x.type ∧ b.use = .live x.size ∧ b.Serves cfg s x.size := by
    intro x hx
    obtain ⟨b, hb, hbuf, htype, hu⟩ := (hl.live.mem x).mp hx
    exact ⟨b, hb, hbuf, htype, hu, hl.live.serves b hb _ hu⟩
  have hsta : ∀ {b : Block} {x : Allocation}, b.addr + sizeOfPoolHead = x.buffer →
      start x = b.addr ∧ stop x = b.addr + adjustedSize x.size := by
    intro b x hbuf
    constructor
    · change x.buffer - sizeOfPoolHead = b.addr
      omega
    · change x.buffer - sizeOfPoolHead + adjustedSize x.size = b.addr + adjustedSize x.size
      omega
  refine ⟨B, hl.geometry.tiling, fun b hb => ?_, fun b hb => ?_, fun t i a ha => ?_,
    fun x hx => ?_, fun x hx y hy hne => ?_, fun x hx t i a ha => ?_, hset.occupied⟩
  · cases hu : b.use with
    | taken => exact absurd hu (hset.none_taken b hb)
    | free =>
      obtain ⟨hsma, hlen⟩ := hl.free.small b hb hu
      exact .inl ⟨lt_of_lt_of_le hsma limit_le, hlen⟩
    | live n =>
      by_cases hsma : b.Small cfg
      · exact .inl ⟨lt_of_lt_of_le hsma limit_le, (hl.live.serves b hb n hu).small hsma⟩
      · obtain ⟨r, hr, hhome⟩ := hl.geometry.home b hb
        obtain ⟨hbase, hlen⟩ := hhome.whole hsma
        exact .inr ⟨r, hr, n, hbase, hlen, rfl⟩
  · cases hu : b.use with
    | taken => exact absurd hu (hset.none_taken b hb)
    | free => exact .inr ⟨rfl, (hl.free.mem _ _ _).mpr ⟨b, hb, rfl, rfl, rfl, hu⟩⟩
    | live n =>
      exact .inl ⟨⟨b.addr + sizeOfPoolHead, n, b.type⟩,
        (hl.live.mem _).mpr ⟨b, hb, rfl, rfl, hu⟩, rfl, rfl, rfl⟩
  · obtain ⟨b, hb, haddr, htype, hind, hu⟩ := (hl.free.mem t i a).mp ha
    exact ⟨b, hb, hu, haddr, htype, hind⟩
  · obtain ⟨b, hb, hbuf, htype, hu, hser⟩ := hblo x hx
    have hbou := hl.geometry.block_bound hb
    have hroom := hser.room
    refine ⟨b, hb, hu, hbuf, hroom.1.trans hroom.2, ?_⟩
    rw [headToTail_eq hroom.2 hser.tail_le.1 hbou.2.2]
    simp only [poolOverhead, sizeOfPoolHead, sizeOfPoolTail] at *
    omega
  · obtain ⟨b, hb, hbbuf, hbt, hbu, hbs⟩ := hblo x hx
    obtain ⟨c, hc, hcbuf, hct, hcu, hcs⟩ := hblo y hy
    have hbc : b ≠ c := by
      rintro rfl
      rw [hbu] at hcu
      obtain ⟨xb, xs, xt⟩ := x
      obtain ⟨yb, ys, yt⟩ := y
      simp only [Use.live.injEq] at hbbuf hcbuf hbt hct hcu
      exact hne (by rw [← hbbuf, hcbuf, hcu, ← hbt, hct])
    have hbr := hbs.room.2
    have hcr := hcs.room.2
    have hap := hl.geometry.tiling.apart b hb c hc hbc
    simp only [Apart, (hsta hbbuf).1, (hsta hbbuf).2, (hsta hcbuf).1, (hsta hcbuf).2,
      start_block, stop_block] at hap ⊢
    omega
  · obtain ⟨b, hb, hbbuf, hbt, hbu, hbs⟩ := hblo x hx
    obtain ⟨c, hc, rfl, rfl, rfl, hcu⟩ := (hl.free.mem t i a).mp ha
    have hbc : b ≠ c := by
      rintro rfl
      rw [hbu] at hcu
      cases hcu
    have hbr := hbs.room.2
    have hlen := (hl.free.small c hc hcu).2
    have hap := hl.geometry.tiling.apart b hb c hc hbc
    simp only [Apart, (hsta hbbuf).1, (hsta hbbuf).2, start_block, stop_block] at hap ⊢
    omega

lemma givenBack_of_runs (h : PoolInv cfg s clients) (h' : PoolInv cfg s' clients')
    (hruns : (∀ r ∈ s.runs, r ∈ s'.runs) ∨ ∀ r ∈ s'.runs, r ∈ s.runs) :
    GivenBack s s' clients' := by
  obtain ⟨B, hset⟩ := h.settled
  obtain ⟨B', hset'⟩ := h'.settled
  intro r hr
  constructor
  · rcases hruns with hsub | hsub
    · intro hnot
      exact absurd (hsub r hr) hnot
    · intro hnot x hx hin
      -- the block of the request lies in another run, which is apart from this one
      obtain ⟨b, hb, hbuf, -, hu⟩ := (hset'.layout.live.mem x).mp hx
      obtain ⟨r', hr', hhome⟩ := hset'.layout.geometry.home b hb
      have hroom := (hset'.layout.live.serves b hb _ hu).room
      have hne : r ≠ r' := by
        rintro rfl
        exact hnot hr'
      have hins := hhome.inside
      have hap := hset.layout.geometry.tiling.regions r hr r' (hsub r' hr') hne
      simp only [Apart, start_run, stop_run, poolOverhead, sizeOfPoolHead, sizeOfPoolTail]
        at hap hroom hbuf hins
      omega
  · intro hno hmem
    obtain ⟨x, hx, hin⟩ := hset'.occupied r hmem
    exact hno x hx hin

lemma coreInternalAllocatePool_spec {pages : PageAllocator} (hpag : PageOk pages)
    (h : PoolInv cfg s clients) {type : MemoryType} {size : ℕ} (hsize : NoWrap type size)
    (lock : Bool) :
    ∃ status buffer s', coreInternalAllocatePool cfg pages lock s type size =
        .ok (status, buffer, s') ∧ (∀ r ∈ s.runs, r ∈ s'.runs) ∧
      (buffer = none ∧ PoolInv cfg s' clients ∨
        ∃ a, buffer = some a ∧ PoolInv cfg s' (⟨a, size, type⟩ :: clients)) := by
  rw [coreInternalAllocatePool]
  by_cases htype : InvalidPoolType type
  · rw [if_pos htype]
    exact ⟨_, _, s, rfl, fun _ hr => hr, .inl ⟨rfl, h⟩⟩
  by_cases hmax : size > maxPoolSize
  · simp [htype, hmax]
    omega
  rw [if_neg htype, if_neg hmax]
  split
  · exact ⟨_, _, s, rfl, fun _ hr => hr, .inl ⟨rfl, h⟩⟩
  have hfits : size ≤ sizeMax := (hsize.resolve_left htype).resolve_right hmax
  obtain ⟨buffer, s', hrun, hruns, hres⟩ := coreAllocatePoolI_spec (t := type) hpag h hfits
  refine ⟨if buffer ≠ none then .success else .outOfResources, buffer, s', ?_, hruns, hres⟩
  simp only [hrun, bind, Except.bind, pure, Except.pure]

lemma PoolInv.buffer_ne_zero (h : PoolInv cfg s clients) {x : Allocation} (hx : x ∈ clients) :
    x.buffer ≠ 0 := by
  obtain ⟨B, hset⟩ := h.settled
  obtain ⟨b, -, hbuf, -⟩ := (hset.layout.live.mem x).mp (List.mem_append_left _ hx)
  simp only [sizeOfPoolHead] at hbuf
  omega

lemma PoolInv.step (h : PoolInv cfg s clients)
    (hstep : Step cfg NoWrap s clients s' clients') :
    PoolInv cfg s' clients' ∧ GivenBack s s' clients' := by
  cases hstep with
  | @allocated _ _ pages lock type size a status hpag _ hsize hrun =>
    obtain ⟨_, _, _, hrun', hruns, hres⟩ := coreInternalAllocatePool_spec hpag h hsize lock
    rw [hrun] at hrun'
    cases hrun'
    rcases hres with ⟨hcon, -⟩ | ⟨a, heq, h'⟩
    · cases hcon
    · cases heq
      exact ⟨h', givenBack_of_runs h h' (.inl hruns)⟩
  | @refused _ _ pages lock type size status hpag _ hsize hrun =>
    obtain ⟨_, _, _, hrun', hruns, hres⟩ := coreInternalAllocatePool_spec hpag h hsize lock
    rw [hrun] at hrun'
    cases hrun'
    rcases hres with ⟨-, h'⟩ | ⟨a, hcon, -⟩
    · exact ⟨h', givenBack_of_runs h h' (.inl hruns)⟩
    · cases hcon
  | @freed _ _ pages x status hpag hx hrun =>
    obtain ⟨_, hrun', h', hruns⟩ := coreFreePoolI_spec pages h hx
    rw [coreInternalFreePool, if_neg (h.buffer_ne_zero hx), hrun'] at hrun
    cases hrun
    exact ⟨h', givenBack_of_runs h h' (.inr hruns)⟩

lemma Reachable.poolInv (h : Reachable cfg NoWrap s clients) : PoolInv cfg s clients := by
  induction h with
  | init header tail => exact poolInv_init cfg header tail
  | step _ hstep ih => exact (ih.step hstep).1

/-- In every run without a request that wraps around, one of `2^64 - 47` to `2^64 - 41` bytes: the
blocks tile the pages of the pool, each is in use or on the list of its index, every request has a
block of its own that holds it with its head and tail, pages are given back exactly when nothing
in them is in use, and every call returns. -/
theorem pool_runs_sound (hreach : Reachable cfg NoWrap s clients) :
    (∃ B, PoolSound cfg s clients B) ∧
    (∀ s' clients', Step cfg NoWrap s clients s' clients' → GivenBack s s' clients') ∧
    (∀ pages lock type size, PageOk pages → NoWrap type size →
      ∃ r, coreInternalAllocatePool cfg pages lock s type size = .ok r) ∧
    ∀ pages, ∀ x ∈ clients, ∃ s',
      coreInternalFreePool cfg pages s x.buffer = .ok (.success, s') := by
  have h := hreach.poolInv
  refine ⟨h.sound, fun s' clients' hstep => (h.step hstep).2, ?_, ?_⟩
  · intro pages lock type size hpages hsize
    obtain ⟨status, buffer, s', hrun, -⟩ :=
      coreInternalAllocatePool_spec hpages h hsize lock
    exact ⟨_, hrun⟩
  · intro pages x hx
    obtain ⟨s', hrun, -⟩ := coreFreePoolI_spec pages h hx
    refine ⟨s', ?_⟩
    rw [coreInternalFreePool, if_neg (h.buffer_ne_zero hx), hrun]

/-! ### Sizes that wrap around -/

lemma granularity_x64 : 0x1000 = 0x1000 ∨ 0x1000 = 0x10000 := .inl rfl

def x64 : Config := ⟨0x1000, granularity_x64⟩

/-- A page allocator with one page. -/
def onePage : PageAllocator := fun s _ n g =>
  if s.runs = [] ∧ n = 1 ∧ g = 0x1000 then some 0x10000 else none

lemma pageOk_onePage : PageOk onePage := by
  intro s t n g a hp
  unfold onePage at hp
  split at hp
  · rename_i hcond
    obtain ⟨hruns, rfl, rfl⟩ := hcond
    cases hp
    refine ⟨by decide, by decide, by decide, fun r hr => ?_⟩
    rw [hruns] at hr
    cases hr
  · cases hp

/-- Memory with nothing in it. -/
def blank : State := coreInitializePool (fun _ => .other) fun _ => none

/-- What an allocation returns to its caller. -/
def answer (r : Except Halt (EfiStatus × Option ℕ × State)) :
    Option (EfiStatus × Option ℕ × List PageRun) :=
  match r with
  | .ok (status, buffer, s) => some (status, buffer, s.runs)
  | .error _ => none

/-- A request of 100 bytes in the first page. -/
theorem pool_runs_sound_first :
    ∃ s', coreInternalAllocatePool x64 onePage true blank 4 100 =
        .ok (.success, some 0x10018, s') ∧
      ∃ B, PoolSound x64 s' [⟨0x10018, 100, 4⟩] B := by
  have hval : answer (coreInternalAllocatePool x64 onePage true blank 4 100) =
      some (.success, some 0x10018, [⟨0x10000, 1, 4⟩]) := by decide
  cases hrun : coreInternalAllocatePool x64 onePage true blank 4 100 with
  | error e =>
    rw [hrun] at hval
    cases hval
  | ok r =>
    obtain ⟨status, buffer, s'⟩ := r
    rw [hrun] at hval
    simp only [answer, Option.some.injEq, Prod.mk.injEq] at hval
    obtain ⟨rfl, rfl, -⟩ := hval
    have hreach : Reachable x64 NoWrap blank [] := .init _ _
    have hstep : Step x64 NoWrap blank [] s' [⟨0x10018, 100, 4⟩] :=
      .allocated pageOk_onePage (by decide) (.inr (.inl (by decide))) hrun
    exact ⟨s', rfl, (pool_runs_sound (hreach.step hstep)).1⟩

/-- A request of `MAX_POOL_SIZE` bytes wraps around to a block of 128 bytes. -/
theorem wrapped_size_served :
    ∃ s' clients, Reachable x64 (fun _ _ => True) s' clients ∧ ¬ ∃ B, PoolSound x64 s' clients B := by
  have hval : answer (coreInternalAllocatePool x64 onePage true blank 4 maxPoolSize) =
      some (.success, some 0x10018, [⟨0x10000, 1, 4⟩]) := by decide
  cases hrun : coreInternalAllocatePool x64 onePage true blank 4 maxPoolSize with
  | error e =>
    rw [hrun] at hval
    cases hval
  | ok r =>
    obtain ⟨status, buffer, s'⟩ := r
    rw [hrun] at hval
    simp only [answer, Option.some.injEq, Prod.mk.injEq] at hval
    obtain ⟨rfl, rfl, hruns⟩ := hval
    have hreach : Reachable x64 (fun _ _ => True) blank [] := .init _ _
    have hstep : Step x64 (fun _ _ => True) blank [] s' [⟨0x10018, maxPoolSize, 4⟩] :=
      .allocated pageOk_onePage (by decide) trivial hrun
    refine ⟨s', _, hreach.step hstep, ?_⟩
    rintro ⟨B, hsound⟩
    -- the block of the request would have to lie in the one page that there is
    obtain ⟨b, hb, -, -, hroom, -⟩ := hsound.fits ⟨0x10018, maxPoolSize, 4⟩ (by simp)
    obtain ⟨r, hr, hin⟩ := hsound.tiled.inside b hb
    simp only [Set.mem_ofPred_eq, hruns, List.mem_singleton] at hr
    subst hr
    simp only [start_run, stop_run, start_block, stop_block, efiPageSize, maxPoolSize, poolOverhead,
      sizeOfPoolHead, sizeOfPoolTail] at hin hroom
    omega

end Edk2.Pool
