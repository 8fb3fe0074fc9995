import Edk2.Page.Model
import Edk2.Lib.Outcome

/-!
# Adding a range to the memory map

While the memory lock is held, descriptors in pages and descriptors in stack slots together cover
the memory. `CoreAddRange` keeps that: it merges the new range with the descriptors it touches and
puts the result into a new slot.
-/

namespace Edk2.Page

open Segment
open Edk2.Pool (MemoryType)

instance : Segment MemoryMap (MemoryType × BitVec 64) where
  lo := MemoryMap.start
  hi := MemoryMap.stop
  label e := (e.type, e.attr)

@[simp] lemma lo_memoryMap (e : MemoryMap) : lo e = e.start := rfl

@[simp] lemma hi_memoryMap (e : MemoryMap) : hi e = e.stop := rfl

@[simp] lemma label_memoryMap (e : MemoryMap) : label e = (e.type, e.attr) := rfl

@[simp] lemma contains_memoryMap (e : MemoryMap) (a : ℕ) :
    Contains e a ↔ e.start ≤ a ∧ a ≤ e.stop := Iff.rfl

/-- A nonempty range of whole pages that ends below the top of the address space. -/
structure IsPages (start stop : ℕ) : Prop where
  start_mod : start % efiPageSize = 0
  stop_mod : (stop + 1) % efiPageSize = 0
  lt : start < stop
  stop_lt : stop + 1 < 2 ^ 64

/-- The points of a range. -/
def range (start stop : ℕ) : Set ℕ := {a | start ≤ a ∧ a ≤ stop}

@[simp] lemma mem_range {start stop a : ℕ} : a ∈ range start stop ↔ start ≤ a ∧ a ≤ stop := Iff.rfl

/-- The list describes the memory `S`, with `depth` slots of the stack in use. -/
structure MapOk (map : List MemoryMap) (depth : ℕ) (S : Set ℕ) : Prop where
  covers : Covers map S
  separated : Separated map
  pages : ∀ e ∈ map, IsPages e.start e.stop
  sorted : (map.filter MemoryMap.fromPages).Pairwise fun e f => e.start < f.start
  slots : ∀ e ∈ map, ∀ i ∈ e.slot, i < depth
  distinct : map.Pairwise fun e f => ∀ i ∈ e.slot, i ∉ f.slot

variable {map : List MemoryMap} {depth start stop : ℕ} {S : Set ℕ} {type : MemoryType}
  {attr : BitVec 64} {e : MemoryMap} {s : State}

namespace MapOk

lemma covers_sublist (h : MapOk map depth S) {l : List MemoryMap} {T : Set ℕ} (hsub : l.Sublist map)
    (hcov : Covers l T) (hsep : Separated l) : MapOk l depth T where
  covers := hcov
  separated := hsep
  pages e he := h.pages e (hsub.mem he)
  sorted := h.sorted.sublist (hsub.filter _)
  slots e he := h.slots e (hsub.mem he)
  distinct := h.distinct.sublist hsub

lemma congr (h : MapOk map depth S) {T : Set ℕ} (hST : ∀ a, a ∈ S ↔ a ∈ T) : MapOk map depth T :=
  { h with covers := h.covers.congr hST }

lemma push (h : MapOk map depth S) (he : e.slot = some depth) (hpag : IsPages e.start e.stop)
    (hout : ∀ a ∈ S, ¬ Contains e a)
    (hl : ∀ f ∈ map, f.stop + 1 = e.start → label f ≠ label e)
    (hr : ∀ f ∈ map, e.stop + 1 = f.start → label e ≠ label f) :
    MapOk (map ++ [e]) (depth + 1) (S ∪ range e.start e.stop) := by
  have hperm : (e :: map).Perm (map ++ [e]) := (List.perm_append_singleton e map).symm
  refine ⟨(h.covers.cons hpag.lt.le hout).perm hperm,
    (h.separated.cons hpag.lt.le hl hr).perm hperm, fun f hf => ?_, ?_, fun f hf i hi => ?_, ?_⟩
  · rcases List.mem_append.mp hf with hf | hf
    · exact h.pages f hf
    · rw [List.mem_singleton.mp hf]
      exact hpag
  · have hnot : e.fromPages = false := by simp [MemoryMap.fromPages, he]
    rw [List.filter_append, List.filter_singleton, hnot]
    simpa using h.sorted
  · rcases List.mem_append.mp hf with hf | hf
    · exact Nat.lt_succ_of_lt (h.slots f hf i hi)
    grind
  · refine List.pairwise_append.mpr ⟨h.distinct, List.pairwise_singleton _ _, ?_⟩
    intro f hf g hg i hi
    rw [List.mem_singleton.mp hg, he]
    rintro ⟨⟩
    exact absurd (h.slots f hf _ hi) (lt_irrefl _)

end MapOk

/-- The descriptor could be merged with the range. -/
def Adjoins (type : MemoryType) (attr : BitVec 64) (start stop : ℕ) (e : MemoryMap) : Prop :=
  (e.type = type ∧ e.attr = attr) ∧ (e.stop + 1 = start ∨ stop + 1 = e.start)

/-- What the search for adjoining descriptors comes to, if the descriptors in `pre` have been
looked at before. -/
structure AdjoinOk (pre map : List MemoryMap) (type : MemoryType) (attr : BitVec 64) (S : Set ℕ)
    (start stop : ℕ) (r : Adjoined) : Prop where
  sublist : r.kept.Sublist map
  pages : IsPages r.start r.stop
  covers : ∃ T, Covers (pre ++ r.kept) T ∧ (∀ a ∈ T, ¬ (r.start ≤ a ∧ a ≤ r.stop)) ∧
    ∀ a, (a ∈ T ∨ (r.start ≤ a ∧ a ≤ r.stop)) ↔ (a ∈ S ∨ (start ≤ a ∧ a ≤ stop))
  separated : Separated (pre ++ r.kept)
  apart : ∀ f ∈ pre ++ r.kept, ¬ Adjoins type attr r.start r.stop f

lemma AdjoinOk.keep {pre rest : List MemoryMap} {r : Adjoined}
    (h : AdjoinOk (pre ++ [e]) rest type attr S start stop r) :
    AdjoinOk pre (e :: rest) type attr S start stop (r.keep e) := by
  obtain ⟨hsub, hpag, hcov, hsep, hap⟩ := h
  simp only [List.append_assoc, List.singleton_append] at hcov hsep hap
  exact ⟨hsub.cons_cons e, hpag, hcov, hsep, hap⟩

lemma AdjoinOk.remove {pre rest : List MemoryMap} {r : Adjoined} {start' stop' : ℕ}
    (h : AdjoinOk pre rest type attr (S \ points e) start' stop' r)
    (hpoi : ∀ a, (start' ≤ a ∧ a ≤ stop') ↔ (Contains e a ∨ (start ≤ a ∧ a ≤ stop)))
    (he : ∀ a, Contains e a → a ∈ S) :
    AdjoinOk pre (e :: rest) type attr S start stop (r.remove e) := by
  obtain ⟨hsub, hpag, ⟨T, hcov, hout, hall⟩, hsep, hap⟩ := h
  refine ⟨hsub.cons e, hpag, ⟨T, hcov, hout, fun a => ?_⟩, hsep, hap⟩
  refine (hall a).trans ?_
  grind [mem_points]

lemma adjoin_spec (type : MemoryType) (attr : BitVec 64) (pre map : List MemoryMap)
    (hcov : Covers (pre ++ map) S) (hsep : Separated (pre ++ map))
    (hmap : ∀ e ∈ map, IsPages e.start e.stop) (hpag : IsPages start stop)
    (hout : ∀ a ∈ S, ¬ (start ≤ a ∧ a ≤ stop))
    (hpre : ∀ f ∈ pre, ¬ Adjoins type attr start stop f) :
    AdjoinOk pre map type attr S start stop (adjoin type attr map start stop) := by
  induction map generalizing pre S start stop with
  | nil =>
    refine ⟨.slnil, hpag, ⟨S, hcov, hout, fun _ => Iff.rfl⟩, hsep, ?_⟩
    simpa [adjoin] using hpre
  | cons e rest ih =>
    have hmem : e ∈ pre ++ e :: rest := by simp
    have he := hmap e List.mem_cons_self
    have hrest := fun f hf => hmap f (List.mem_cons_of_mem e hf)
    have hperm : (pre ++ e :: rest).Perm (e :: (pre ++ rest)) := List.perm_middle
    have hcov' := (hcov.perm hperm).tail
    have hsep' := (hsep.perm hperm).tail
    -- a descriptor looked at before does not touch `e` if it has its label
    have hold : ∀ f ∈ pre, (f.type = e.type ∧ f.attr = e.attr) →
        f.stop + 1 ≠ e.start ∧ e.stop + 1 ≠ f.start := by
      intro f hf hlab
      have hf' : f ∈ pre ++ e :: rest := List.mem_append_left _ hf
      have heq : label f = label e := by rw [label_memoryMap, label_memoryMap, hlab.1, hlab.2]
      exact ⟨fun ht => hsep f hf' e hmem ht heq, fun ht => hsep e hmem f hf' ht heq.symm⟩
    have hein : ∀ a, Contains e a → a ∈ S := fun a ha => hcov.mem hmem ha
    rw [adjoin]
    split_ifs with hlab hleft hrig
    · -- another type or other attributes
      refine (ih (pre ++ [e]) (by simpa using hcov) (by simpa using hsep) hrest hpag hout ?_).keep
      intro f hf
      rcases List.mem_append.mp hf with hf | hf
      · exact hpre f hf
      · rw [List.mem_singleton.mp hf]
        rintro ⟨⟨ht, ha⟩, -⟩
        exact hlab.elim (fun h => h ht) fun h => h ha
    · simp only [not_or, not_not] at hlab
      rw [u64_of_lt he.stop_lt] at hleft
      have hlo := he.lt
      refine (ih pre hcov' hsep' hrest ⟨he.start_mod, hpag.stop_mod, ?_, hpag.stop_lt⟩ ?_ ?_).remove
        (fun a => ?_) hein
      · have := hpag.lt
        omega
      · grind [mem_points, contains_memoryMap]
      · grind [Adjoins]
      · simp only [contains_memoryMap]
        have := hpag.lt
        omega
    · simp only [not_or, not_not] at hlab
      rw [u64_of_lt hpag.stop_lt] at hrig
      have hlo := he.lt
      refine (ih pre hcov' hsep' hrest ⟨hpag.start_mod, he.stop_mod, ?_, he.stop_lt⟩ ?_ ?_).remove
        (fun a => ?_) hein
      · have := hpag.lt
        omega
      · grind [mem_points, contains_memoryMap]
      · grind [Adjoins]
      · simp only [contains_memoryMap]
        have := hpag.lt
        omega
    · refine (ih (pre ++ [e]) (by simpa using hcov) (by simpa using hsep) hrest hpag hout ?_).keep
      intro f hf
      rcases List.mem_append.mp hf with hf | hf
      · exact hpre f hf
      · rw [List.mem_singleton.mp hf]
        rw [u64_of_lt he.stop_lt] at hleft
        rw [u64_of_lt hpag.stop_lt] at hrig
        rintro ⟨-, htou | htou⟩
        · exact hleft htou
        · exact hrig htou.symm

lemma MapOk.adjoin (h : MapOk map depth S) (hpag : IsPages start stop)
    (hout : ∀ a ∈ S, ¬ (start ≤ a ∧ a ≤ stop)) :
    MapOk ((Page.adjoin type attr map start stop).kept ++
        [{ slot := some depth, type := type, start := (Page.adjoin type attr map start stop).start
           stop := (Page.adjoin type attr map start stop).stop, attr := attr }])
      (depth + 1) (S ∪ range start stop) := by
  have hadj := adjoin_spec type attr [] map h.covers h.separated h.pages hpag hout (by simp)
  generalize Page.adjoin type attr map start stop = r at hadj
  obtain ⟨hsub, hpag', ⟨T, hcov, hout', hall⟩, hsep, hap⟩ := hadj
  have hkept : MapOk r.kept depth T := h.covers_sublist hsub hcov hsep
  refine (hkept.push ?_ hpag' ?_ (fun f hf htou heq => ?_) fun f hf htou heq => ?_).congr
    fun a => hall a
  · rfl
  · exact hout'
  · simp only [label_memoryMap, Prod.mk.injEq] at heq
    exact hap f hf ⟨heq, .inl htou⟩
  · simp only [label_memoryMap, Prod.mk.injEq] at heq
    exact hap f hf ⟨⟨heq.1.symm, heq.2.symm⟩, .inr htou⟩

end Edk2.Page

/-!
## Converting pages

An iteration of `CoreConvertPagesEx` pulls a range out of the descriptor that covers it and adds it
again with its new type or attributes. It needs at most two slots of the stack, and the memory
described stays the same.
-/

namespace Edk2.Page

open Outcome Segment
open Edk2.Pool (MemoryType efiConventionalMemory)

variable {map before after : List MemoryMap} {depth start stop rangeEnd : ℕ} {S : Set ℕ}
  {type : MemoryType} {attr : BitVec 64} {e e' : MemoryMap} {s s' s'' : State} {change : Change}
  {n numberOfPages : ℕ}

namespace MapOk

lemma perm_cons (h : MapOk (before ++ e :: after) depth S) :
    Covers (e :: (before ++ after)) S ∧ Separated (e :: (before ++ after)) :=
  ⟨h.covers.perm List.perm_middle, h.separated.perm List.perm_middle⟩

lemma erase (h : MapOk (before ++ e :: after) depth S) :
    MapOk (before ++ after) depth (S \ points e) :=
  h.covers_sublist (by simp) h.perm_cons.1.tail h.perm_cons.2.tail

lemma clip (h : MapOk (before ++ e :: after) depth S) (hslot : e'.slot = e.slot)
    (hlab : label e' = label e) (hpag : IsPages e'.start e'.stop) (hlo : e.start ≤ e'.start)
    (hhi : e'.stop ≤ e.stop) :
    MapOk (before ++ e' :: after) depth ((S \ points e) ∪ range e'.start e'.stop) := by
  obtain ⟨hcov, hsep⟩ := h.perm_cons
  have hlt := hpag.lt
  have hoth : ∀ f ∈ before ++ after, (e.stop < f.start ∨ f.stop < e.start) ∧ f.start ≤ f.stop :=
    fun f hf => ⟨hcov.apart_of_cons hf, hcov.nonempty f (List.mem_cons_of_mem e hf)⟩
  have hcov' : Covers (e' :: (before ++ after)) ((S \ points e) ∪ range e'.start e'.stop) := by
    refine hcov.tail.cons hlt.le ?_
    simp [mem_points, contains_memoryMap]
    omega
  have hsep' : Separated (e' :: (before ++ after)) := by
    refine hsep.tail.cons hlt.le (fun f hf htou => ?_) fun f hf htou => ?_
    · rw [hlab]
      have := hoth f hf
      refine hsep f (List.mem_cons_of_mem e hf) e List.mem_cons_self ?_
      simp only [lo_memoryMap, hi_memoryMap] at htou ⊢
      omega
    · rw [hlab]
      have := hoth f hf
      refine hsep e List.mem_cons_self f (List.mem_cons_of_mem e hf) ?_
      simp only [lo_memoryMap, hi_memoryMap] at htou ⊢
      omega
  have hmem : ∀ f ∈ before ++ e' :: after, f = e' ∨ f ∈ before ++ after := by
    grind
  have hold : ∀ f ∈ before ++ after, f ∈ before ++ e :: after := by
    grind
  refine ⟨hcov'.perm List.perm_middle.symm, hsep'.perm List.perm_middle.symm, fun f hf => ?_, ?_,
    fun f hf => ?_, ?_⟩
  · rcases hmem f hf with rfl | hf
    · exact hpag
    · exact h.pages f (hold f hf)
  · have hfrom : e'.fromPages = e.fromPages := by rw [MemoryMap.fromPages, hslot]; rfl
    have hsor := h.sorted
    grind [List.pairwise_cons]
  · rcases hmem f hf with rfl | hf
    · rw [hslot]
      exact h.slots e (by simp)
    · exact h.slots f (hold f hf)
  · have hdis := h.distinct
    grind [List.pairwise_cons]

lemma split (start rangeEnd : ℕ) (h : MapOk (before ++ e :: after) depth S)
    (hlo : IsPages e.start (start - 1)) (hhi : IsPages (rangeEnd + 1) e.stop) (hsta : e.start < start) (hle : start ≤ rangeEnd) :
    MapOk (before ++ { e with stop := start - 1 } :: after ++
        [{ slot := some depth, type := e.type, start := rangeEnd + 1, stop := e.stop
           attr := e.attr }]) (depth + 1) (S \ range start rangeEnd) := by
  obtain ⟨hcov, hsep⟩ := h.perm_cons
  have hlt := hhi.lt
  have hoth : ∀ f ∈ before ++ after, (e.stop < f.start ∨ f.stop < e.start) ∧ f.start ≤ f.stop :=
    fun f hf => ⟨hcov.apart_of_cons hf, hcov.nonempty f (List.mem_cons_of_mem e hf)⟩
  have hin : ∀ a, e.start ≤ a ∧ a ≤ e.stop → a ∈ S := fun a ha => hcov.mem List.mem_cons_self ha
  have hclip : MapOk (before ++ { e with stop := start - 1 } :: after) depth
      ((S \ points e) ∪ range e.start (start - 1)) :=
    h.clip rfl rfl hlo le_rfl (by simp only; omega)
  have hmem : ∀ f ∈ before ++ { e with stop := start - 1 } :: after,
      f = { e with stop := start - 1 } ∨ f ∈ before ++ after := by
    intro f hf
    simp only [List.mem_append, List.mem_cons] at hf ⊢
    tauto
  refine (hclip.push rfl hhi ?_ (fun f hf htou => ?_) fun f hf htou => ?_).congr fun a => ?_
  · simp [mem_points, contains_memoryMap, mem_range]
    omega
  · grind
  · simp only at htou
    rcases hmem f hf with rfl | hf
    · simp only at htou
      omega
    · exact hsep e List.mem_cons_self f (List.mem_cons_of_mem e hf) htou
  · simp only [Set.mem_union, Set.mem_sdiff, mem_points, contains_memoryMap, mem_range]
    grind

end MapOk

/-- What work on the map leaves alone; it may free descriptors. -/
structure Keeps (s s' : State) : Prop where
  mFreeMapStack : s'.mFreeMapStack = s.mFreeMapStack
  gMemoryLock : s'.gMemoryLock = s.gMemoryLock
  mGcdMemorySpaceLock : s'.mGcdMemorySpaceLock = s.mGcdMemorySpaceLock
  mGcdMemorySpaceMap : s'.mGcdMemorySpaceMap = s.mGcdMemorySpaceMap
  added : s'.added = s.added
  released : s'.released = s.released
  promotions : s'.promotions = s.promotions
  freeEntries : s.freeEntries ≤ s'.freeEntries

lemma Keeps.refl (s : State) : Keeps s s := ⟨rfl, rfl, rfl, rfl, rfl, rfl, rfl, le_rfl⟩

lemma Keeps.trans (h : Keeps s s') (h' : Keeps s' s'') : Keeps s s'' where
  mFreeMapStack := h'.mFreeMapStack.trans h.mFreeMapStack
  gMemoryLock := h'.gMemoryLock.trans h.gMemoryLock
  mGcdMemorySpaceLock := h'.mGcdMemorySpaceLock.trans h.mGcdMemorySpaceLock
  mGcdMemorySpaceMap := h'.mGcdMemorySpaceMap.trans h.mGcdMemorySpaceMap
  added := h'.added.trans h.added
  released := h'.released.trans h.released
  promotions := h'.promotions.trans h.promotions
  freeEntries := h.freeEntries.trans h'.freeEntries

/-- The ways in which work that needs `pushes` slots can stop. -/
structure Stops (s : State) (pushes : ℕ) (f : Failure) (s' : State) : Prop where
  released : s'.released = s.released
  promotions : s'.promotions = s.promotions
  failure : f = .assert ∨ (f = .overflow ∧ maxMapDepth ≤ s.mMapDepth + pushes)

lemma Keeps.stops (h : Keeps s s') {pushes : ℕ} : Stops s pushes .assert s' :=
  ⟨h.released, h.promotions, .inl rfl⟩

lemma Stops.trans {f : Failure} {m : ℕ} (h : Keeps s s') (h' : Stops s' n f s'')
    (hdep : s'.mMapDepth + n ≤ s.mMapDepth + m) : Stops s m f s'' where
  released := h'.released.trans h.released
  promotions := h'.promotions.trans h.promotions
  failure := h'.failure.imp_right fun h => ⟨h.1, h.2.trans hdep⟩

lemma ends_assertThat {p : Prop} [Decidable p] {Q : Unit → State → Prop}
    {E : Failure → State → Prop} (h : p → Q () s) (h' : E .assert s) :
    Ends (assertThat p s) Q E := by
  unfold assertThat
  exact ends_ite (fun hp => ends_pure (h hp)) fun _ => ends_throw h'

lemma ends_assertLocked {Q : Unit → State → Prop} {E : Failure → State → Prop}
    (h : s.gMemoryLock = true → Q () s) (h' : E .assert s) : Ends (assertLocked s) Q E :=
  ends_bind (ends_get (ends_assertThat h h'))

/-- The work on the map that was started in `s` has come to `s'`, which describes `S` and has at
most `pushes` more slots in use. -/
structure Worked (s : State) (S : Set ℕ) (pushes : ℕ) (s' : State) : Prop where
  map : MapOk s'.gMemoryMap s'.mMapDepth S
  keeps : Keeps s s'
  depth_ge : s.mMapDepth ≤ s'.mMapDepth
  depth : s'.mMapDepth ≤ s.mMapDepth + pushes
  depth_lt : s'.mMapDepth < maxMapDepth

lemma pushMapStack_spec
    (h : MapOk (s.gMemoryMap ++ [{ slot := some s.mMapDepth, type := type, start := start
                                   stop := stop, attr := attr }]) (s.mMapDepth + 1) S) :
    Ends (pushMapStack type start stop attr s) (fun _ s' => Worked s S 1 s') (Stops s 1) := by
  refine ends_bind (ends_modify (ends_bind (ends_get (ends_ite (fun hlt => ?_) fun hge => ?_))))
  · exact ends_pure ⟨h, ⟨rfl, rfl, rfl, rfl, rfl, rfl, rfl, le_rfl⟩, Nat.le_succ _, le_rfl, hlt⟩
  · exact ends_throw ⟨rfl, rfl, .inr ⟨rfl, not_lt.mp hge⟩⟩

lemma coreAddRange_spec (h : MapOk s.gMemoryMap s.mMapDepth S) (hpag : IsPages start stop)
    (hout : ∀ a ∈ S, ¬ (start ≤ a ∧ a ≤ stop)) :
    Ends (coreAddRange type start stop attr s) (fun _ s' => Worked s (S ∪ range start stop) 1 s')
      (Stops s 1) := by
  refine ends_bind (ends_assertThat (fun _ => ?_) (Keeps.refl s).stops)
  refine ends_bind (ends_assertThat (fun _ => ?_) (Keeps.refl s).stops)
  refine ends_bind (ends_assertLocked (fun _ => ?_) (Keeps.refl s).stops)
  refine ends_bind (ends_modify (ends_bind (ends_bind (ends_get (ends_bind (ends_set
    (ends_pure ?_)))))))
  -- the state from which the slot is pushed differs from `s` in the list and in the counters
  have hkee : Keeps s
      { s with
        mMemoryMapKey := u64 (s.mMemoryMapKey + 1), updates := s.updates + 1
        gMemoryMap := (adjoin type attr s.gMemoryMap start stop).kept
        freeEntries := s.freeEntries + (adjoin type attr s.gMemoryMap start stop).freed } :=
    ⟨rfl, rfl, rfl, rfl, rfl, rfl, rfl, Nat.le_add_right _ _⟩
  refine (pushMapStack_spec (h.adjoin hpag hout)).mono (fun _ s' hw => ?_) fun f s' hs => ?_
  · exact ⟨hw.map, hkee.trans hw.keeps, hw.depth_ge, hw.depth, hw.depth_lt⟩
  · exact hs.trans hkee le_rfl

/-! ### One iteration -/

lemma putClipped_spec (h : MapOk (before ++ e :: after) s.mMapDepth S)
    (hdep : s.mMapDepth < maxMapDepth) (hslot : e'.slot = e.slot) (hlab : label e' = label e)
    (hclip : (e'.start = u64 (e'.stop + 1) ∧ ∀ a, Contains e a ↔ (start ≤ a ∧ a ≤ rangeEnd)) ∨
      (IsPages e'.start e'.stop ∧ e.start ≤ e'.start ∧ e'.stop ≤ e.stop ∧
        ∀ a, Contains e a ↔ (Contains e' a ∨ (start ≤ a ∧ a ≤ rangeEnd))))
    (hout : ∀ a, Contains e' a → ¬ (start ≤ a ∧ a ≤ rangeEnd)) :
    Ends (putClipped before e' after s) (fun _ s' => Worked s (S \ range start rangeEnd) 0 s')
      (Stops s 0) := by
  rcases hclip with ⟨hemp, hpoi⟩ | ⟨hpag, hlo, hhi, hpoi⟩
  · refine ends_ite (fun _ => ends_modify ⟨?_, ?_, le_rfl, le_rfl, hdep⟩) fun hne => absurd hemp hne
    · refine h.erase.congr fun a => ?_
      simp only [Set.mem_sdiff, mem_points, hpoi, mem_range]
    · exact ⟨rfl, rfl, rfl, rfl, rfl, rfl, rfl, Nat.le_add_right _ _⟩
  · have hlt := hpag.lt
    refine ends_ite (fun hemp => ?_) fun _ => ends_modify ⟨?_, ?_, le_rfl, le_rfl, hdep⟩
    · rw [MemoryMap.Empty, u64_of_lt hpag.stop_lt] at hemp
      omega
    · refine (h.clip hslot hlab hpag hlo hhi).congr fun a => ?_
      have hin : Contains e a → a ∈ S := h.covers.mem (by simp)
      grind [mem_points, mem_range, contains_memoryMap]
    · exact ⟨rfl, rfl, rfl, rfl, rfl, rfl, rfl, le_rfl⟩

lemma pullOut_spec (h : MapOk (before ++ e :: after) s.mMapDepth S)
    (hdep : s.mMapDepth < maxMapDepth) (hpag : IsPages start rangeEnd)
    (hlo : e.start ≤ start) (hhi : rangeEnd ≤ e.stop) :
    Ends (pullOut before e after start rangeEnd s)
      (fun _ s' => Worked s (S \ range start rangeEnd) 1 s') (Stops s 1) := by
  have he := h.pages e (by simp)
  have hlt := hpag.lt
  have hsta := hpag.start_mod
  have hstop := hpag.stop_mod
  have hest := he.start_mod
  have hesto := he.stop_mod
  have htop := he.stop_lt
  have hu : u64 (rangeEnd + 1) = rangeEnd + 1 := u64_of_lt hpag.stop_lt
  simp only [efiPageSize] at hsta hstop hest hesto
  have hweak : ∀ {r}, Ends r (fun _ s' => Worked s (S \ range start rangeEnd) 0 s') (Stops s 0) →
      Ends r (fun (_ : Unit) s' => Worked s (S \ range start rangeEnd) 1 s') (Stops s 1) := by
    intro r hr
    refine hr.mono (fun _ s' hw => ⟨hw.map, hw.keeps, hw.depth_ge, ?_, hw.depth_lt⟩) fun f s' hs => ?_
    · exact hw.depth.trans (Nat.le_succ _)
    · exact hs.trans (Keeps.refl s) (Nat.le_succ _)
  refine ends_ite (fun hclip => hweak ?_) fun hclip => ?_
  · -- clip the start
    refine putClipped_spec h hdep rfl rfl ?_ fun a ha => ?_
    · by_cases hwho : rangeEnd = e.stop
      · grind [contains_memoryMap]
      · refine .inr ⟨⟨?_, he.stop_mod, ?_, he.stop_lt⟩, ?_, le_rfl, fun a => ?_⟩
        · simp only [hu]
          omega
        · simp only [hu]
          omega
        · simp only [hu]
          omega
        · simp only [contains_memoryMap, hu]
          omega
    · simp only [contains_memoryMap, hu] at ha
      omega
  refine ends_ite (fun hend => hweak ?_) fun hend => ?_
  · -- clip the end
    refine putClipped_spec h hdep rfl rfl (.inr ⟨⟨he.start_mod, ?_, ?_, ?_⟩, le_rfl, ?_, ?_⟩)
      fun a ha => ?_
    · simp only [efiPageSize]
      omega
    · simp only
      omega
    · simp only
      omega
    · simp only
      omega
    · intro a
      simp only [contains_memoryMap]
      omega
    · simp only [contains_memoryMap] at ha
      omega
  · -- pull it out of the centre
    have hkee : Keeps s
        { s with gMemoryMap := before ++ { e with stop := start - 1 } :: after } :=
      ⟨rfl, rfl, rfl, rfl, rfl, rfl, rfl, le_rfl⟩
    refine ends_bind (ends_modify (ends_bind (ends_assertThat (fun _ => ?_) hkee.stops)))
    have hspl := h.split start rangeEnd
      ⟨he.start_mod, by simp only [efiPageSize]; omega, by omega, by omega⟩
      ⟨hpag.stop_mod, he.stop_mod, by omega, he.stop_lt⟩ (by omega) hlt.le
    rw [hu]
    refine (pushMapStack_spec hspl).mono (fun _ s' hw => ?_) fun f s' hs => ?_
    · exact ⟨hw.map, hkee.trans hw.keeps, hw.depth_ge, hw.depth, hw.depth_lt⟩
    · exact hs.trans hkee le_rfl

lemma findCover_spec (h : findCover start map = some (before, e, after)) :
    map = before ++ e :: after ∧ e.start ≤ start ∧ start < e.stop := by
  induction map generalizing before with
  | nil => cases h
  | cons f rest ih =>
    rw [findCover] at h
    split_ifs at h with hc
    · cases h
      exact ⟨rfl, hc⟩
    · rcases hr : findCover start rest with _ | ⟨b, x, a⟩
      · rw [hr] at h
        cases h
      grind

lemma Change.count_keeps (change : Change) (e : MemoryMap) (start numberOfPages : ℕ) (s : State) :
    Keeps s (change.count e start numberOfPages s) ∧
      (change.count e start numberOfPages s).gMemoryMap = s.gMemoryMap ∧
      (change.count e start numberOfPages s).mMapDepth = s.mMapDepth := by
  have hfre : ∀ type s, Keeps s (countFreed type start numberOfPages s) ∧
      (countFreed type start numberOfPages s).gMemoryMap = s.gMemoryMap ∧
      (countFreed type start numberOfPages s).mMapDepth = s.mMapDepth := by
    intro type s
    unfold countFreed
    split_ifs
    · exact ⟨⟨rfl, rfl, rfl, rfl, rfl, rfl, rfl, le_rfl⟩, rfl, rfl⟩
    · exact ⟨Keeps.refl s, rfl, rfl⟩
  have hall : ∀ type s, Keeps s (countAllocated type start numberOfPages s) ∧
      (countAllocated type start numberOfPages s).gMemoryMap = s.gMemoryMap ∧
      (countAllocated type start numberOfPages s).mMapDepth = s.mMapDepth := by
    intro type s
    unfold countAllocated
    split_ifs
    · exact ⟨⟨rfl, rfl, rfl, rfl, rfl, rfl, rfl, le_rfl⟩, rfl, rfl⟩
    · exact ⟨Keeps.refl s, rfl, rfl⟩
  cases change with
  | type newType =>
    obtain ⟨hk, hm, hd⟩ := hfre e.type s
    obtain ⟨hk', hm', hd'⟩ := hall newType (countFreed e.type start numberOfPages s)
    exact ⟨hk.trans hk', hm'.trans hm, hd'.trans hd⟩
  | attributes _ => exact ⟨Keeps.refl s, rfl, rfl⟩

/-- What one iteration of `CoreConvertPagesEx` comes to. -/
structure Converted (s : State) (S : Set ℕ) (change : Change) (start stop rangeEnd : ℕ)
    (s' : State) : Prop extends Worked s S 2 s' where
  range_lt : start < rangeEnd
  range_le : rangeEnd ≤ stop
  range_mod : (rangeEnd + 1) % efiPageSize = 0
  range_top : rangeEnd + 1 < 2 ^ 64
  whole : ∀ newType, change = .type newType → newType ≠ efiConventionalMemory → rangeEnd = stop

lemma convertEntry_spec (h : MapOk s.gMemoryMap s.mMapDepth S)
    (hdep : s.mMapDepth < maxMapDepth) (hsta : start % efiPageSize = 0)
    (hstop : (stop + 1) % efiPageSize = 0) (hlt : start < stop) :
    Ends (convertEntry change numberOfPages start stop s)
      (fun r s' => (r = none ∧ s' = s) ∨
        ∃ rangeEnd, r = some rangeEnd ∧ Converted s S change start stop rangeEnd s')
      (Stops s 2) := by
  refine ends_bind (ends_get ?_)
  rcases hfind : findCover start s.gMemoryMap with _ | ⟨before, e, after⟩
  · exact ends_pure (.inl ⟨rfl, rfl⟩)
  obtain ⟨hmap, hlo, hhi⟩ := findCover_spec hfind
  refine ends_ite (fun _ => ends_pure (.inl ⟨rfl, rfl⟩)) fun hall => ?_
  obtain ⟨hkee, hmap', hdep'⟩ := change.count_keeps e start numberOfPages s
  generalize hs₁ : change.count e start numberOfPages s = s₁ at hkee hmap' hdep'
  have he := h.pages e (by rw [hmap]; simp)
  have hest := he.stop_mod
  have htop := he.stop_lt
  have hran : IsPages start (rangeEndOf e stop) ∧ rangeEndOf e stop ≤ e.stop ∧
      rangeEndOf e stop ≤ stop ∧ start < rangeEndOf e stop := by
    unfold rangeEndOf
    split_ifs with hle
    · exact ⟨⟨hsta, hest, hhi, htop⟩, le_rfl, hle.le, hhi⟩
    · exact ⟨⟨hsta, hstop, hlt, by omega⟩, not_lt.mp hle, le_rfl, hlt⟩
  obtain ⟨hpag, hle, hle', hlt'⟩ := hran
  have hin : ∀ a, start ≤ a ∧ a ≤ rangeEndOf e stop → a ∈ S :=
    fun a ha => h.covers.mem (e := e) (by rw [hmap]; simp) (by simp only [contains_memoryMap]; omega)
  refine ends_bind (ends_modify ?_)
  rw [hs₁]
  have hmap₁ : MapOk (before ++ e :: after) s₁.mMapDepth S := by
    rw [hdep', ← hmap]
    exact h
  refine ends_bind ((pullOut_spec hmap₁ (by rw [hdep']; exact hdep) hpag hlo hle).mono
    (fun _ s₂ hw => ?_) fun f s₂ hs => hs.trans hkee (by rw [hdep']; omega))
  refine ends_bind ((coreAddRange_spec hw.map hpag ?_).mono (fun _ s₃ hw' => ?_)
    fun f s₃ hs => hs.trans (hkee.trans hw.keeps) ?_)
  · rintro a ⟨-, ha⟩ hc
    exact ha hc
  · have hdep₂ := hw.depth
    have hdep₃ := hw'.depth
    have hge : s.mMapDepth ≤ s₃.mMapDepth := by
      rw [← hdep']
      exact hw.depth_ge.trans hw'.depth_ge
    refine ends_pure (.inr ⟨_, rfl, ⟨⟨?_, (hkee.trans hw.keeps).trans hw'.keeps, hge, by omega,
      hw'.depth_lt⟩, hlt', hle', hpag.stop_mod, hpag.stop_lt, fun newType hcha hnew => ?_⟩⟩)
    · refine hw'.map.congr fun a => ?_
      grind [mem_range]
    · -- an allocation that was not refused lies in one descriptor
      subst hcha
      have hsin : ¬ e.stop < stop := fun hlt => hall (.inl ⟨hnew, hlt⟩)
      rw [rangeEndOf, if_neg hsin]
  · have hdep₂ := hw.depth
    omega

end Edk2.Page
