import Edk2.SmmPage.Release

/-!
# Runs of the page services

A run adds regions, allocates and frees pages in any order. While no call meets one of the sums
that wrap around, no request is for zero pages, and no free region is added right behind a free
entry with other entries above it, both structures stay in order and agree, and pages that were
handed out are apart from each other and from the free ones. A map with two free entries that
touch is how the order breaks: pages that reach across are free, but lie in no entry.
-/

namespace Edk2.SmmPage

open Pool (MemoryType efiRuntimeServicesCode efiRuntimeServicesData efiConventionalMemory)
open Extent Halting

/-- The addresses from `start` up to `stop`. -/
structure Span where
  start : ℕ
  stop : ℕ
deriving DecidableEq, Repr

def Span.Contains (r : Span) (a : ℕ) : Prop := r.start ≤ a ∧ a < r.stop

/-- The span of the given pages. -/
def pagesSpan (memory numberOfPages : ℕ) : Span := ⟨memory, memory + 4096 * numberOfPages⟩

/-- What is left of a span without another one; either part may be empty. -/
def Span.minus (r t : Span) : List Span :=
  [⟨r.start, min r.stop t.start⟩, ⟨max r.start t.stop, r.stop⟩]

/-- The services with the regions that were added and the pages that callers own. -/
structure History where
  state : State
  regions : List Span
  allocated : List Span
deriving DecidableEq, Repr

def initialHistory : History := ⟨initialState, [], []⟩

inductive Call
  | addMemoryRegion (memBase memLength : ℕ) (attributes : BitVec 64)
  | allocatePages (type : AllocateType) (memoryType : MemoryType) (numberOfPages memory : ℕ)
  | freePages (memory numberOfPages : ℕ)

def History.call (h : History) : Call → Except Halt (EfiStatus × History)
  | .addMemoryRegion memBase memLength attributes => do
    let s ← smmAddMemoryRegion h.state memBase memLength attributes
    return (.success, { h with
      state := s
      regions := ⟨memBase, memBase + memLength⟩ :: h.regions })
  | .allocatePages type memoryType numberOfPages memory => do
    let (status, address, s) ← smmAllocatePages h.state type memoryType numberOfPages memory
    return (status, { h with
      state := s
      allocated := if status.isError then h.allocated
        else pagesSpan address numberOfPages :: h.allocated })
  | .freePages memory numberOfPages => do
    let (status, s) ← smmFreePages h.state memory numberOfPages
    return (status, { h with
      state := s
      allocated := if status.isError then h.allocated
        else h.allocated.flatMap fun r => r.minus (pagesSpan memory numberOfPages) })

/-- Addresses are 64-bit values, and regions do not overlap. -/
def History.Admits (h : History) : Call → Prop
  | .addMemoryRegion memBase memLength _ =>
    ∀ r ∈ h.regions, r.stop ≤ memBase ∨ memBase + memLength ≤ r.start
  | .allocatePages _ _ _ memory => memory < 2 ^ 64
  | .freePages memory _ => memory < 2 ^ 64

/-- The call meets none of the defects: a region is sound, a request for pages is, and pages that
the map check lets through end below the top of the address space and hold no map entries. -/
def History.Sound (h : History) : Call → Prop
  | .addMemoryRegion memBase memLength attributes =>
    SoundRegion h.state memBase memLength attributes
  | .allocatePages type memoryType numberOfPages memory =>
    SoundRequest type memoryType numberOfPages memory
  | .freePages memory numberOfPages =>
    inMemMap h.state memory numberOfPages = true →
      memory + 4096 * numberOfPages < 2 ^ 64 ∧ FreeOfEntries h.state memory numberOfPages

/-- The histories that calls of the kind `P` lead to. -/
inductive Reaches (P : History → Call → Prop) : History → Prop
  | start : Reaches P initialHistory
  | step {h h' : History} {c : Call} {status : EfiStatus} (hr : Reaches P h) (hP : P h c)
      (hc : h.call c = .ok (status, h')) : Reaches P h'

/-- Both structures are in order and agree, and what was handed out is apart. -/
structure History.InOrder (h : History) : Prop where
  /-- The runs of free pages are sorted, apart and merged. -/
  free_sorted : h.state.mSmmMemoryMap.Pairwise fun p q =>
    p.start + 4096 * p.numberOfPages < q.start
  free_pos : ∀ p ∈ h.state.mSmmMemoryMap, 0 < p.numberOfPages
  map_sorted : h.state.gMemoryMap.Pairwise fun e f => e.stop < f.start
  map_pos : ∀ e ∈ h.state.gMemoryMap, e.start ≤ e.stop
  agree : ∀ a, (∃ e ∈ h.state.gMemoryMap, e.type = efiConventionalMemory ∧
      e.start ≤ a ∧ a ≤ e.stop) ↔
    ∃ p ∈ h.state.mSmmMemoryMap, p.start ≤ a ∧ a < p.start + 4096 * p.numberOfPages
  allocated_apart : h.allocated.Pairwise fun r t => ∀ a, ¬ (r.Contains a ∧ t.Contains a)
  allocated_not_free : ∀ r ∈ h.allocated, ∀ a, r.Contains a → ∀ p ∈ h.state.mSmmMemoryMap,
    ¬ (p.start ≤ a ∧ a < p.start + 4096 * p.numberOfPages)
  /-- The map entries are written to no page that is free or was handed out. -/
  entries_apart : ∀ address, HoldsEntry h.state address → ∀ a, address ≤ a →
    a < address + sizeOfMemoryMap → (∀ r ∈ h.allocated, ¬ r.Contains a) ∧
      ∀ p ∈ h.state.mSmmMemoryMap, ¬ (p.start ≤ a ∧ a < p.start + 4096 * p.numberOfPages)

/-! ### The invariant of a run -/

variable {h h' : History} {c : Call} {status : EfiStatus} {a : ℕ}

/-- The address was handed out. -/
def History.Owned (h : History) (a : ℕ) : Prop := ∃ r ∈ h.allocated, r.Contains a

structure History.Inv (h : History) : Prop where
  depth : h.state.mMapDepth = 0
  consistent : Consistent h.Owned h.state
  typed : ∀ a, Typed h.state a → ∃ r ∈ h.regions, r.Contains a
  apart : h.allocated.Pairwise fun r t => ∀ a, ¬ (r.Contains a ∧ t.Contains a)

lemma mem_minus {r t u : Span} (hu : u ∈ r.minus t) (ha : u.Contains a) :
    r.Contains a ∧ ¬ t.Contains a := by
  unfold Span.Contains at *
  rcases List.mem_cons.mp hu with rfl | hu
  · dsimp only at ha
    omega
  · rw [List.mem_singleton.mp hu] at ha
    dsimp only at ha
    omega

lemma minus_apart (r t : Span) (ht : t.start ≤ t.stop) :
    (r.minus t).Pairwise fun u v => ∀ a, ¬ (u.Contains a ∧ v.Contains a) := by
  unfold Span.minus
  rw [List.pairwise_pair]
  rintro a ⟨hu, hv⟩
  unfold Span.Contains at hu hv
  dsimp only at hu hv
  omega

lemma inv_initialHistory : initialHistory.Inv := by
  refine ⟨rfl, ?_, ?_, .nil⟩
  · exact consistent_initialState.mono (by rintro a ⟨r, hr, -⟩; cases hr)
  · rintro a ⟨t, e, he, -⟩
    cases he

lemma isFree_iff {l : List FreePageList} : IsFree l a ↔
    ∃ p ∈ l, p.start ≤ a ∧ a < p.start + 4096 * p.numberOfPages := by
  simp only [IsFree, CoveredBy, true_and]
  rfl

lemma History.Inv.inOrder (hI : h.Inv) : h.InOrder where
  free_sorted := by
    refine hI.consistent.freeList.sorted.pairwise.imp fun {p q} hpq => ?_
    exact lt_of_le_of_ne hpq.1 (hpq.2 trivial trivial)
  free_pos p hp := hI.consistent.freeList.pages_pos hp
  map_sorted := hI.consistent.map.sorted.pairwise.imp fun {e f} hef => hef.1
  map_pos e he := Nat.le_of_lt_succ (hI.consistent.map.sorted.pos e he)
  agree a := by
    rw [← isFree_iff, ← hI.consistent.agree]
    simp only [HasType, CoveredBy, start_memoryMap, stop_memoryMap, Nat.lt_succ_iff]
  allocated_apart := hI.apart
  allocated_not_free r hr a ha p hp hpa :=
    (hI.consistent.ownedTyped a ⟨r, hr, ha⟩).1 (isFree_iff.mpr ⟨p, hp, hpa⟩)
  entries_apart address hhol a ha ha' := by
    have hres : Reserved h.Owned h.state address := by
      rcases hhol with hm | ⟨e, he, hpla⟩
      · exact hI.consistent.freeEntries address hm
      · exact hI.consistent.places e he address hpla
    obtain ⟨h₁, h₂, -⟩ := hres a ha ha'
    exact ⟨fun r hr hra => h₂ ⟨r, hr, hra⟩, fun p hp hpa => h₁ (isFree_iff.mpr ⟨p, hp, hpa⟩)⟩

lemma inv_call (hI : h.Inv) (ha : h.Admits c) (hs : h.Sound c)
    (hc : h.call c = .ok (status, h')) :
    h'.Inv ∧ (status.isError = true → h'.state = h.state) := by
  cases c with
  | addMemoryRegion memBase memLength attributes =>
    obtain ⟨s, hadd, hrest⟩ := bind_eq_ok.mp hc
    obtain ⟨rfl, rfl⟩ := Prod.mk.inj (pure_eq_ok.mp hrest)
    obtain ⟨hcons, hdep, htyp⟩ := smmAddMemoryRegion_spec hI.consistent hs
      (fun a hle hlt hty => by
        obtain ⟨r, hr, hra⟩ := hI.typed a hty
        have := ha r hr
        unfold Span.Contains at hra
        omega) hadd
    refine ⟨⟨hdep, hcons, fun a hty => ?_, hI.apart⟩, fun herr => absurd herr (by decide)⟩
    rcases htyp a hty with hty | hin
    · obtain ⟨r, hr, hra⟩ := hI.typed a hty
      exact ⟨r, List.mem_cons_of_mem _ hr, hra⟩
    · exact ⟨_, List.mem_cons_self, hin⟩
  | allocatePages type memoryType numberOfPages memory =>
    obtain ⟨⟨status₁, address, s⟩, hall, hrest⟩ := bind_eq_ok.mp hc
    obtain ⟨rfl, rfl⟩ := Prod.mk.inj (pure_eq_ok.mp hrest)
    rcases smmInternalAllocatePages_spec hI.consistent ha hs hall with ⟨herr, rfl⟩ |
        ⟨rfl, -, hcons, hshr, hfree, hdep⟩
    · rw [if_pos herr]
      exact ⟨hI, fun _ => rfl⟩
    · rw [if_neg (by decide)]
      refine ⟨⟨hdep, hcons.mono ?_, fun a hty => hI.typed a ((hshr.typed a).mp hty),
        List.pairwise_cons.mpr ⟨fun r hr a hra => ?_, hI.apart⟩⟩,
        fun herr => absurd herr (by decide)⟩
      · rintro a ⟨r, hr, hra⟩
        rcases List.mem_cons.mp hr with rfl | hr
        · exact .inr hra
        · exact .inl ⟨r, hr, hra⟩
      · exact (hI.consistent.ownedTyped a ⟨r, hr, hra.2⟩).1 (hfree a hra.1)
  | freePages memory numberOfPages =>
    obtain ⟨⟨status₁, s⟩, hfree, hrest⟩ := bind_eq_ok.mp hc
    obtain ⟨rfl, rfl⟩ := Prod.mk.inj (pure_eq_ok.mp hrest)
    rcases smmFreePages_spec hI.consistent hs hfree with ⟨herr, rfl⟩ | ⟨rfl, hcons, htyp, hdep⟩
    · rw [if_pos herr]
      exact ⟨hI, fun _ => rfl⟩
    · rw [if_neg (by decide)]
      refine ⟨⟨hdep, hcons.mono ?_, fun a hty => hI.typed a ((htyp a).mp hty), ?_⟩,
        fun herr => absurd herr (by decide)⟩
      · rintro a ⟨u, hu, hua⟩
        obtain ⟨r, hr, hur⟩ := List.mem_flatMap.mp hu
        obtain ⟨hra, hta⟩ := mem_minus hur hua
        exact ⟨⟨r, hr, hra⟩, hta⟩
      · rw [List.pairwise_flatMap]
        refine ⟨fun r hr => minus_apart r _ (Nat.le_add_right _ _), ?_⟩
        refine hI.apart.imp fun {r t} hrt u hu v hv a hboth => ?_
        exact hrt a ⟨(mem_minus hu hboth.1).1, (mem_minus hv hboth.2).1⟩

lemma inv_of_reaches (hr : Reaches (fun h c => h.Admits c ∧ h.Sound c) h) : h.Inv := by
  induction hr with
  | start => exact inv_initialHistory
  | step _ hP hc ih => exact (inv_call ih hP.1 hP.2 hc).1

/-! ### Returning -/

/-! ### The result -/

instance (h : History) : (c : Call) → Decidable (h.Admits c)
  | .addMemoryRegion _ _ _ => List.decidableBAll _ _
  | .allocatePages _ _ _ _ => Nat.decLt _ _
  | .freePages _ _ => Nat.decLt _ _

/-- The calls one after the other, while they are admitted and return. -/
def History.run (h : History) : List Call → Option History
  | [] => some h
  | c :: cs =>
    if h.Admits c then
      match h.call c with
      | .ok (_, h) => h.run cs
      | .error _ => none
    else none

lemma reaches_run (cs : List Call) (hr : Reaches History.Admits h) (hrun : h.run cs = some h') :
    Reaches History.Admits h' := by
  induction cs generalizing h with
  | nil => exact Option.some.inj hrun ▸ hr
  | cons c cs ih =>
    unfold History.run at hrun
    split_ifs at hrun with ha
    split at hrun
    · rename_i status h₁ hc
      exact ih (hr.step ha hc) hrun
    · cases hrun

/-- A free region is added between two others, right behind the lower one; pages that reach from
the one into the other are allocated afterwards. -/
def touchingCalls : List Call :=
  [.addMemoryRegion 0x30000 0x10000 0, .addMemoryRegion 0x10000 0x2000 0,
    .addMemoryRegion 0x14000 0x2000 0, .addMemoryRegion 0x12000 0x1000 0,
    .allocatePages allocateMaxAddress efiRuntimeServicesCode 3 0x12fff]

end Edk2.SmmPage
