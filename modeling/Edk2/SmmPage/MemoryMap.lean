import Edk2.SmmPage.FreeList
import Edk2.Lib.Halting
import Mathlib.Data.List.TakeWhile

/-!
# The memory map

`ConvertSmmMemoryMapEntry` gives a range a type. Where the range lies in one entry of the map, or
meets none and does not touch a free entry below it, the map stays sorted, its free entries stay
merged, and the types change in the range alone.
-/

namespace Edk2.SmmPage

open Pool (MemoryType efiRuntimeServicesCode efiRuntimeServicesData efiConventionalMemory
  assertThat)
open Extent Halting

variable {s s' : State} {l l' before before' rest rest' : List MemoryMap}
  {entry entry' new : MemoryMap} {begin last a : ℕ} {type t : MemoryType}

instance : Extent MemoryMap := ⟨fun e => e.start, fun e => e.stop + 1⟩

lemma start_memoryMap (e : MemoryMap) : start e = e.start := rfl

lemma stop_memoryMap (e : MemoryMap) : stop e = e.stop + 1 := rfl

/-- The entry is one of free memory. -/
def MemoryMap.IsConventional (e : MemoryMap) : Prop := e.type = efiConventionalMemory

/-- The map is sorted, its free entries are merged, and no entry reaches the top of the address
space. -/
structure SortedMap (l : List MemoryMap) : Prop where
  sorted : Sorted MemoryMap.IsConventional l
  lt_top : ∀ e ∈ l, e.stop + 1 < 2 ^ 64

/-- The address has the type in the map. -/
def HasType (l : List MemoryMap) (t : MemoryType) (a : ℕ) : Prop :=
  CoveredBy (fun e : MemoryMap => e.type = t) l a

/-- The address lies between the two, both included. -/
def InRange (begin last a : ℕ) : Prop := begin ≤ a ∧ a ≤ last

lemma hasType_cons : HasType (entry :: l) t a ↔
    (entry.type = t ∧ entry.start ≤ a ∧ a < entry.stop + 1) ∨ HasType l t a := by
  simp [HasType, start_memoryMap, stop_memoryMap]

@[simp] lemma hasType_append : HasType (l ++ l') t a ↔ HasType l t a ∨ HasType l' t a :=
  coveredBy_append

@[simp] lemma hasType_reverse : HasType l.reverse t a ↔ HasType l t a := coveredBy_reverse

@[simp] lemma hasType_nil : ¬ HasType [] t a := coveredBy_nil

lemma SortedMap.focus (hs : SortedMap (before.reverse ++ entry :: rest)) :
    SortedMap (entry :: before).reverse ∧ SortedMap (entry :: rest) := by
  obtain ⟨hb, hr⟩ := sorted_focus.mp hs.sorted
  refine ⟨⟨hb, fun e he => hs.lt_top e ?_⟩, hr, fun e he => hs.lt_top e ?_⟩
  · simp only [List.mem_reverse, List.mem_cons, List.mem_append] at he ⊢
    tauto
  · exact List.mem_append_right _ he

/-! ### Entries -/

lemma assertThat_eq_ok {b : Bool} {u : Unit} : assertThat b = .ok u ↔ b = true := by
  cases b <;> simp [assertThat]

lemma insertNewEntry_eq_ok : insertNewEntry s begin last t = .ok (new, s') ↔
    s.mMapDepth + 1 < maxMapDepth ∧ new = ⟨begin, last, t, .stack s.mMapDepth⟩ ∧
      s' = { s with mMapDepth := s.mMapDepth + 1 } := by
  unfold insertNewEntry
  rw [bind_eq_ok]
  simp only [assertThat_eq_ok, pure_eq_ok, Prod.mk.injEq, decide_eq_true_eq]
  constructor
  · rintro ⟨-, hlt, rfl, rfl⟩
    exact ⟨hlt, rfl, rfl⟩
  · rintro ⟨hlt, rfl, rfl⟩
    exact ⟨⟨⟩, hlt, rfl, rfl⟩

lemma splitBelow_spec (h : splitBelow s begin before entry = .ok (before', s'))
    (hs : SortedMap (entry :: before).reverse) (hlt : begin ≤ entry.stop)
    (hle : entry.start ≤ begin) :
    SortedMap before'.reverse ∧ (∀ b ∈ before', stop b ≤ begin) ∧
      ∀ t a, HasType before' t a ↔
        HasType before t a ∨ entry.type = t ∧ entry.start ≤ a ∧ a < begin := by
  obtain ⟨hpos, hprec, hbef⟩ := sorted_reverse_cons.mp hs.sorted
  have htop := hs.lt_top entry (by simp)
  unfold splitBelow at h
  split_ifs at h with hspl
  · rw [bind_eq_ok] at h
    obtain ⟨⟨below, s₁⟩, hins, h⟩ := h
    obtain ⟨rfl, rfl⟩ := Prod.mk.inj (pure_eq_ok.mp h)
    obtain ⟨-, rfl, -⟩ := insertNewEntry_eq_ok.mp hins
    have hsub : sub64 begin 1 = begin - 1 := sub64_of_le (by omega) (by omega)
    rw [hsub]
    refine ⟨⟨?_, fun e he => ?_⟩, fun b hb => ?_, fun t a => ?_⟩
    · refine sorted_reverse_cons.mpr ⟨?_, fun b hb => ?_, hbef⟩
      · rw [start_memoryMap, stop_memoryMap]
        dsimp only
        omega
      · exact (hprec b hb).congr_right rfl id
    · rw [List.mem_reverse] at he
      rcases List.mem_cons.mp he with rfl | he
      · dsimp only
        omega
      · exact hs.lt_top e (by simp [he])
    · rcases List.mem_cons.mp hb with rfl | hb
      · rw [stop_memoryMap]
        dsimp only
        omega
      · exact (hprec b hb).1.trans hle
    · simp [hasType_cons, or_comm, show begin - 1 + 1 = begin by omega]
  · obtain ⟨rfl, rfl⟩ := Prod.mk.inj (Except.ok.inj h)
    refine ⟨⟨hbef, fun e he => hs.lt_top e ?_⟩, fun b hb => ?_, fun t a => ?_⟩
    · simp only [List.reverse_cons, List.mem_append]
      exact .inl he
    · exact (hprec b hb).1.trans hle
    · have hnone : ¬ (entry.start ≤ a ∧ a < begin) := by omega
      simp [hnone]

lemma splitAbove_spec (h : splitAbove s last entry rest = .ok (rest', s'))
    (hs : SortedMap (entry :: rest)) (hle : last ≤ entry.stop) :
    SortedMap rest' ∧ (∀ c ∈ rest', last + 1 ≤ start c) ∧
      ∀ t a, HasType rest' t a ↔
        HasType rest t a ∨ entry.type = t ∧ last < a ∧ a < entry.stop + 1 := by
  obtain ⟨hpos, hprec, hrest⟩ := sorted_cons.mp hs.sorted
  have htop := hs.lt_top entry List.mem_cons_self
  unfold splitAbove at h
  split_ifs at h with hspl
  · rw [bind_eq_ok] at h
    obtain ⟨⟨above, s₁⟩, hins, h⟩ := h
    obtain ⟨rfl, rfl⟩ := Prod.mk.inj (pure_eq_ok.mp h)
    obtain ⟨-, rfl, -⟩ := insertNewEntry_eq_ok.mp hins
    have hsucc : u64 (last + 1) = last + 1 := u64_of_lt (by omega)
    rw [hsucc]
    refine ⟨⟨?_, fun e he => ?_⟩, fun c hc => ?_, fun t a => ?_⟩
    · refine sorted_cons.mpr ⟨?_, fun c hc => ?_, hrest⟩
      · rw [start_memoryMap, stop_memoryMap]
        dsimp only
        omega
      · exact (hprec c hc).congr_left rfl id
    · rcases List.mem_cons.mp he with rfl | he
      · exact htop
      · exact hs.lt_top e (List.mem_cons_of_mem _ he)
    · rcases List.mem_cons.mp hc with rfl | hc
      · exact le_rfl
      · have := (hprec c hc).1
        rw [stop_memoryMap] at this
        omega
    · rw [hasType_cons]
      dsimp only
      rw [or_comm, Nat.succ_le_iff]
  · obtain ⟨rfl, rfl⟩ := Prod.mk.inj (Except.ok.inj h)
    refine ⟨⟨hrest, fun e he => hs.lt_top e (List.mem_cons_of_mem _ he)⟩,
      fun c hc => ?_, fun t a => ?_⟩
    · have := (hprec c hc).1
      rw [stop_memoryMap] at this
      omega
    · grind

lemma joinNext_spec (h : joinNext s entry rest = (entry', rest', s'))
    (hpos : entry.start ≤ entry.stop) (htop : entry.stop + 1 < 2 ^ 64) (hs : SortedMap rest)
    (hle : ∀ c ∈ rest, stop entry ≤ start c) :
    SortedMap (entry' :: rest') ∧ entry'.start = entry.start ∧
      entry'.type = entry.type ∧
      ∀ t a, HasType (entry' :: rest') t a ↔ HasType (entry :: rest) t a := by
  cases rest with
  | nil =>
    simp only [joinNext, Prod.mk.injEq] at h
    obtain ⟨rfl, rfl, rfl⟩ := h
    refine ⟨⟨sorted_singleton.mpr ?_, by simpa using htop⟩, rfl, rfl, fun _ _ => .rfl⟩
    rw [start_memoryMap, stop_memoryMap]
    omega
  | cons next rest =>
    obtain ⟨hnpos, hprec, hrest⟩ := sorted_cons.mp hs.sorted
    have hnext := hle next List.mem_cons_self
    have hntop := hs.lt_top next List.mem_cons_self
    have hsucc : u64 (entry.stop + 1) = entry.stop + 1 := u64_of_lt htop
    simp only [joinNext, hsucc] at h
    split_ifs at h with hjoin
    · simp only [Prod.mk.injEq] at h
      obtain ⟨rfl, rfl, rfl⟩ := h
      rw [start_memoryMap, stop_memoryMap] at hnpos hnext
      refine ⟨⟨?_, fun e he => ?_⟩, rfl, rfl, fun t a => ?_⟩
      · refine sorted_cons.mpr ⟨?_, fun c hc => ?_, hrest⟩
        · rw [start_memoryMap, stop_memoryMap]
          dsimp only
          omega
        · refine (hprec c hc).congr_left rfl fun hc => ?_
          exact hjoin.1.symm.trans hc
      · rcases List.mem_cons.mp he with rfl | he
        · exact hntop
        · exact hs.lt_top e (List.mem_cons_of_mem _ he)
      · grind [hasType_cons]
    · simp only [Prod.mk.injEq] at h
      obtain ⟨rfl, rfl, rfl⟩ := h
      refine ⟨⟨?_, fun e he => ?_⟩, rfl, rfl, fun _ _ => .rfl⟩
      · have hfst : Precedes MemoryMap.IsConventional entry next := by
          refine ⟨hnext, fun he hn htou => hjoin ⟨he.trans hn.symm, ?_⟩⟩
          rwa [stop_memoryMap, start_memoryMap] at htou
        refine sorted_cons.mpr ⟨?_, fun c hc => ?_, hs.sorted⟩
        · rw [start_memoryMap, stop_memoryMap]
          omega
        · rcases List.mem_cons.mp hc with rfl | hc
          · exact hfst
          · exact hfst.trans hnpos (hprec c hc)
      · rcases List.mem_cons.mp he with rfl | he
        · exact htop
        · exact hs.lt_top e he

lemma joinPrevious_spec (h : joinPrevious s entry rest before = (l, s'))
    (hb : SortedMap before.reverse) (hle : ∀ b ∈ before, stop b ≤ start entry)
    (hs : SortedMap (entry :: rest)) :
    SortedMap l ∧
      ∀ t a, HasType l t a ↔ HasType before t a ∨ HasType (entry :: rest) t a := by
  obtain ⟨hpos, hrpr, hrest⟩ := sorted_cons.mp hs.sorted
  cases before with
  | nil =>
    simp only [joinPrevious, Prod.mk.injEq] at h
    obtain ⟨rfl, rfl⟩ := h
    exact ⟨hs, by simp⟩
  | cons previous before =>
    obtain ⟨hppos, hprec, hbef⟩ := sorted_reverse_cons.mp hb.sorted
    have hprev := hle previous List.mem_cons_self
    have hptop := hb.lt_top previous (by simp)
    have hsucc : u64 (previous.stop + 1) = previous.stop + 1 := u64_of_lt hptop
    have htops : ∀ e ∈ before.reverse ++ rest, e.stop + 1 < 2 ^ 64 := by
      intro e he
      rcases List.mem_append.mp he with he | he
      · exact hb.lt_top e (by simp [List.mem_reverse.mp he])
      · exact hs.lt_top e (List.mem_cons_of_mem _ he)
    have hetop := hs.lt_top entry List.mem_cons_self
    simp only [joinPrevious, hsucc] at h
    split_ifs at h with hjoin
    · obtain ⟨rfl, rfl⟩ := Prod.mk.inj h
      rw [start_memoryMap, stop_memoryMap] at hpos hppos hprev
      refine ⟨⟨?_, fun e he => ?_⟩, fun t a => ?_⟩
      · refine sorted_focus.mpr ⟨sorted_reverse_cons.mpr ⟨?_, fun b hb => ?_, hbef⟩,
          sorted_cons.mpr ⟨?_, fun c hc => ?_, hrest⟩⟩
        · rw [start_memoryMap, stop_memoryMap]
          dsimp only
          omega
        · exact (hprec b hb).congr_right rfl id
        · rw [start_memoryMap, stop_memoryMap]
          dsimp only
          omega
        · refine (hrpr c hc).congr_left rfl fun hc => ?_
          exact hjoin.1.symm.trans hc
      · grind
      · grind [hasType_append, hasType_reverse, hasType_cons]
    · obtain ⟨rfl, rfl⟩ := Prod.mk.inj h
      refine ⟨⟨?_, fun e he => ?_⟩, fun t a => ?_⟩
      · have hlast : Precedes MemoryMap.IsConventional previous entry := by
          refine ⟨hprev, fun hp he htou => hjoin ⟨hp.trans he.symm, ?_⟩⟩
          rwa [stop_memoryMap, start_memoryMap] at htou
        refine sorted_focus.mpr ⟨sorted_reverse_cons.mpr ⟨hpos, fun b hb' => ?_, hb.sorted⟩,
          hs.sorted⟩
        rcases List.mem_cons.mp hb' with rfl | hb'
        · exact hlast
        · exact (hprec b hb').trans hppos hlast
      · grind
      · rw [hasType_append, hasType_reverse]

/-! ### The conversion -/

/-- In the map `l'` the range has the type, and everything else is as it was in `l`. -/
def Converted (l l' : List MemoryMap) (type : MemoryType) (begin last : ℕ) : Prop :=
  ∀ t a, HasType l' t a ↔ InRange begin last a ∧ t = type ∨ ¬ InRange begin last a ∧ HasType l t a

lemma convertEntry_spec (h : convertEntry s type begin last before entry rest = .ok s')
    (hs : SortedMap (before.reverse ++ entry :: rest)) (hran : begin ≤ last)
    (hle : entry.start ≤ begin) (hle' : last ≤ entry.stop) :
    SortedMap s'.gMemoryMap ∧
      Converted (before.reverse ++ entry :: rest) s'.gMemoryMap type begin last := by
  obtain ⟨hb, hr⟩ := hs.focus
  have hetop := hs.lt_top entry (by simp)
  obtain ⟨-, hbpr, -⟩ := sorted_reverse_cons.mp hb.sorted
  obtain ⟨-, hrpr, -⟩ := sorted_cons.mp hr.sorted
  unfold convertEntry at h
  obtain ⟨⟨before₁, s₁⟩, hbel, h⟩ := bind_eq_ok.mp h
  obtain ⟨⟨rest₁, s₂⟩, habo, h⟩ := bind_eq_ok.mp h
  obtain ⟨hsor₁, hle₁, htyp₁⟩ := splitBelow_spec hbel hb (by omega) hle
  obtain ⟨hsor₂, hle₂, htyp₂⟩ := splitAbove_spec habo hr hle'
  dsimp only at h
  generalize hnext : joinNext s₂ { entry with start := begin, stop := last, type := type } rest₁ =
    next at h
  obtain ⟨entry₁, rest₂, s₃⟩ := next
  obtain ⟨hsor₃, hsta, -, htyp₃⟩ :=
    joinNext_spec hnext hran (by dsimp only; omega) hsor₂ hle₂
  dsimp only at h
  generalize hpre : joinPrevious s₃ entry₁ rest₂ before₁ = previous at h
  obtain ⟨map, s₄⟩ := previous
  obtain ⟨hsor₄, htyp₄⟩ :=
    joinPrevious_spec hpre hsor₁ (by rw [start_memoryMap, hsta]; exact hle₁) hsor₃
  have hs' : s' = { s₄ with gMemoryMap := map } := (pure_eq_ok.mp h).symm
  subst hs'
  refine ⟨hsor₄, fun t a => ?_⟩
  -- what lies to either side of the entry does not meet the range
  have hbef : HasType before t a → a < begin := by
    intro ha
    by_contra hge
    refine not_coveredBy_of_ge (fun b hb => (hbpr b hb).1) ?_ ha
    rw [start_memoryMap]
    omega
  have hrest : HasType rest t a → last < a := by
    intro ha
    by_contra hge
    refine not_coveredBy_of_lt (fun c hc => (hrpr c hc).1) ?_ ha
    rw [stop_memoryMap]
    omega
  rw [htyp₄, htyp₃, hasType_cons, htyp₁, htyp₂, hasType_append, hasType_reverse, hasType_cons]
  unfold InRange
  by_cases hbt : HasType before t a
  · have := hbef hbt
    simp only [hbt, true_or, and_true, true_iff]
    omega
  · by_cases hrt : HasType rest t a
    · grind
    · grind

lemma excludeRegion_skip (hl : ∀ b ∈ l, b.stop < begin) (hran : begin ≤ last)
    (hs : ∀ b ∈ l, b.start ≤ b.stop) :
    excludeRegion s type begin last before (l ++ rest) =
      excludeRegion s type begin last (l.reverse ++ before) rest := by
  induction l generalizing before with
  | nil => rfl
  | cons b l ih =>
    grind [excludeRegion, List.reverse_cons, List.append_assoc]

lemma excludeRegion_inside (h : excludeRegion s type begin last [] l = .ok s')
    (hg : s.gMemoryMap = l) (hs : SortedMap l) (he : entry ∈ l) (hran : begin ≤ last)
    (hle : entry.start ≤ begin) (hle' : last ≤ entry.stop) :
    SortedMap s'.gMemoryMap ∧
      Converted l s'.gMemoryMap type begin last := by
  obtain ⟨before, rest, rfl⟩ := List.append_of_mem he
  obtain ⟨hsb, -, hprec⟩ := sorted_append.mp hs.sorted
  have hbef : ∀ b ∈ before, b.stop < begin := by
    intro b hb
    have := (hprec b hb entry List.mem_cons_self).1
    rw [stop_memoryMap, start_memoryMap] at this
    omega
  have hpos : ∀ b ∈ before, b.start ≤ b.stop := by
    intro b hb
    have := hsb.pos b hb
    rw [stop_memoryMap, start_memoryMap] at this
    omega
  have hgt : ¬ entry.start > last := by omega
  rw [excludeRegion_skip hbef hran hpos, excludeRegion, if_neg hgt, if_pos ⟨hle, hle'⟩] at h
  split_ifs at h with hne
  · have hspec := convertEntry_spec h (by simpa using hs) hran hle hle'
    simpa using hspec
  · obtain rfl := Except.ok.inj h
    refine ⟨hg ▸ hs, fun t a => ?_⟩
    rw [hg]
    have hin : InRange begin last a → (HasType (before ++ entry :: rest) t a ↔ t = type) := by
      intro ha
      have hea : start entry ≤ a ∧ a < stop entry := by
        rw [start_memoryMap, stop_memoryMap]
        exact ⟨hle.trans ha.1, by have := ha.2; omega⟩
      constructor
      · rintro ⟨e, he', rfl, hea'⟩
        have heq := hs.sorted.eq_of_covers he he' hea.1 hea.2 hea'.1 hea'.2
        rw [← heq]
        exact Decidable.not_not.mp hne
      · rintro rfl
        exact ⟨entry, he, Decidable.not_not.mp hne, hea⟩
    by_cases ha : InRange begin last a
    · grind
    · simp only [ha, false_and, not_false_eq_true, true_and, false_or]

lemma exists_split (hs : SortedMap l)
    (hout : ∀ e ∈ l, e.stop < begin ∨ last < e.start) :
    ∃ before rest, l = before ++ rest ∧ (∀ b ∈ before, b.stop < begin) ∧
      ∀ c ∈ rest, last < c.start := by
  refine ⟨l.takeWhile fun e => e.stop < begin, l.dropWhile fun e => e.stop < begin,
    List.takeWhile_append_dropWhile.symm, fun b hb => ?_, ?_⟩
  · simpa using List.mem_takeWhile_imp hb
  · have hsor := hs.sorted
    have hmem : ∀ c ∈ l.dropWhile fun e => e.stop < begin, c ∈ l :=
      fun c hc => List.dropWhile_subset _ hc
    rw [← List.takeWhile_append_dropWhile (p := fun e => e.stop < begin) (l := l)] at hsor
    have hhead := List.head?_dropWhile_not (fun e : MemoryMap => decide (e.stop < begin)) l
    generalize (l.dropWhile fun e => e.stop < begin) = rest at hsor hhead hmem
    cases rest with
    | nil => simp
    | cons c rest =>
      have hc : last < c.start := by
        grind
      obtain ⟨hcpos, hprec, -⟩ := sorted_cons.mp hsor.append_right
      intro d hd
      rcases List.mem_cons.mp hd with rfl | hd
      · exact hc
      · have := (hprec d hd).1
        rw [start_memoryMap, stop_memoryMap] at hcpos this
        omega

lemma sortedMap_append : SortedMap (l ++ l') ↔ SortedMap l ∧ SortedMap l' ∧
    ∀ b ∈ l, ∀ c ∈ l', Precedes MemoryMap.IsConventional b c := by
  constructor
  · rintro ⟨hs, htop⟩
    obtain ⟨hl, hl', hprec⟩ := sorted_append.mp hs
    exact ⟨⟨hl, fun e he => htop e (List.mem_append_left _ he)⟩,
      ⟨hl', fun e he => htop e (List.mem_append_right _ he)⟩, hprec⟩
  · rintro ⟨hl, hl', hprec⟩
    refine ⟨sorted_append.mpr ⟨hl.sorted, hl'.sorted, hprec⟩, fun e he => ?_⟩
    rcases List.mem_append.mp he with he | he
    · exact hl.lt_top e he
    · exact hl'.lt_top e he

lemma sortedMap_insert (hl : SortedMap l) (hl' : SortedMap l')
    (hpos : new.start ≤ new.stop) (htop : new.stop + 1 < 2 ^ 64)
    (hb : ∀ b ∈ l, Precedes MemoryMap.IsConventional b new)
    (hc : ∀ c ∈ l', Precedes MemoryMap.IsConventional new c) : SortedMap (l ++ new :: l') := by
  have hnew : start new < stop new := by
    rw [start_memoryMap, stop_memoryMap]
    omega
  refine sortedMap_append.mpr ⟨hl, ⟨sorted_cons.mpr ⟨hnew, hc, hl'.sorted⟩, fun e he => ?_⟩,
    fun b hb' c hc' => ?_⟩
  · rcases List.mem_cons.mp he with rfl | he
    · exact htop
    · exact hl'.lt_top e he
  · rcases List.mem_cons.mp hc' with rfl | hc'
    · exact hb b hb'
    · exact (hb b hb').trans hnew (hc c hc')

/-- The range takes its place between the entries `before` and `rest`: as an entry of its own, or
joined to one of its neighbours. -/
lemma excludeRegion_between
    (h : excludeRegion s type begin last before.reverse rest = .ok s')
    (hsb : SortedMap before) (hsr : SortedMap rest) (hran : begin ≤ last)
    (htop : last + 1 < 2 ^ 64) (hbef : ∀ b ∈ before, b.stop < begin)
    (hrest : ∀ c ∈ rest, last < c.start)
    (htou : type = efiConventionalMemory → rest ≠ [] →
      ∀ e ∈ before, e.IsConventional → e.stop + 1 ≠ begin) :
    SortedMap s'.gMemoryMap ∧
      ∀ t a, HasType s'.gMemoryMap t a ↔
        HasType (before ++ rest) t a ∨ InRange begin last a ∧ t = type := by
  have hnewT : ∀ (new : MemoryMap) t a, new.start = begin → new.stop = last →
      new.type = type → (HasType (before ++ new :: rest) t a ↔
        HasType (before ++ rest) t a ∨ InRange begin last a ∧ t = type) := by
    rintro new t a rfl rfl rfl
    rw [hasType_append, hasType_append, hasType_cons, InRange, Nat.lt_succ_iff]
    tauto
  have hsucc : u64 (last + 1) = last + 1 := u64_of_lt htop
  cases rest with
  | cons entry rest =>
    have hent := hrest entry List.mem_cons_self
    have hetop := hsr.lt_top entry List.mem_cons_self
    obtain ⟨hepos, hepr, -⟩ := sorted_cons.mp hsr.sorted
    have hepo' : entry.start ≤ entry.stop := by
      rw [start_memoryMap, stop_memoryMap] at hepos
      omega
    have hprec : ∀ (new : MemoryMap), new.start = begin → new.type = type →
        ∀ b ∈ before, Precedes MemoryMap.IsConventional b new := by
      intro new hsta htype b hb
      have hlt := hbef b hb
      refine ⟨?_, fun hbc hnc heq => htou (htype.symm.trans hnc) (by simp) b hb hbc ?_⟩
      · rw [stop_memoryMap, start_memoryMap, hsta]
        omega
      · rw [← hsta]
        exact heq
    rw [excludeRegion, if_pos hent, hsucc] at h
    split_ifs at h with hjoin
    · obtain rfl := Except.ok.inj h
      obtain ⟨hsta, htype⟩ := hjoin
      rw [List.reverse_reverse]
      have hsr' : SortedMap rest := ⟨(sorted_cons.mp hsr.sorted).2.2,
        fun e he => hsr.lt_top e (List.mem_cons_of_mem _ he)⟩
      refine ⟨sortedMap_insert hsb hsr' (by dsimp only; omega) hetop
        (hprec _ rfl htype) fun c hc => (hepr c hc).congr_left rfl id, fun t a => ?_⟩
      rw [hasType_append, hasType_append, hasType_cons, hasType_cons, htype]
      dsimp only
      have hspl : begin ≤ a ∧ a < entry.stop + 1 ↔
          InRange begin last a ∨ entry.start ≤ a ∧ a < entry.stop + 1 := by
        unfold InRange
        omega
      rw [hspl, eq_comm (a := t)]
      tauto
    · obtain ⟨⟨new, s₁⟩, hins, h⟩ := bind_eq_ok.mp h
      obtain ⟨-, hnew, -⟩ := insertNewEntry_eq_ok.mp hins
      obtain rfl := pure_eq_ok.mp h
      rw [List.reverse_reverse]
      have hsta : new.start = begin := by rw [hnew]
      have hstop : new.stop = last := by rw [hnew]
      have htype : new.type = type := by rw [hnew]
      have hfst : Precedes MemoryMap.IsConventional new entry := by
        refine ⟨?_, fun hnc hec heq => hjoin ⟨?_, ?_⟩⟩
        · rw [stop_memoryMap, start_memoryMap]
          omega
        · rw [stop_memoryMap, start_memoryMap] at heq
          omega
        · exact hec.trans (hnc.symm.trans htype)
      refine ⟨sortedMap_insert hsb hsr (by omega) (by omega)
        (hprec new hsta htype) fun c hc => ?_, fun t a => hnewT new t a hsta hstop htype⟩
      rcases List.mem_cons.mp hc with rfl | hc
      · exact hfst
      · exact hfst.trans hepos (hepr c hc)
  | nil =>
    have hinse : ∀ new s₁, insertNewEntry s begin last type = .ok (new, s₁) →
        (∀ b ∈ before, b.IsConventional → type = efiConventionalMemory → b.stop + 1 ≠ begin) →
        SortedMap (before ++ [new]) ∧ ∀ t a, HasType (before ++ [new]) t a ↔
            HasType (before ++ []) t a ∨ InRange begin last a ∧ t = type := by
      intro new s₁ hins hne
      obtain ⟨-, rfl, -⟩ := insertNewEntry_eq_ok.mp hins
      refine ⟨sortedMap_insert hsb hsr hran htop (fun b hb => ?_) (by simp), fun t a => ?_⟩
      · exact ⟨hbef b hb, fun hbc hnc heq => hne b hb hbc hnc heq⟩
      · exact hnewT _ t a rfl rfl rfl
    rcases List.eq_nil_or_concat' before with rfl | ⟨before, previous, rfl⟩
    · rw [List.reverse_nil, excludeRegion] at h
      obtain ⟨⟨new, s₁⟩, hins, h⟩ := bind_eq_ok.mp h
      obtain rfl := pure_eq_ok.mp h
      exact hinse new s₁ hins (by simp)
    · obtain ⟨hsb', hsp, hprec⟩ := sortedMap_append.mp hsb
      have hpmem : previous ∈ before ++ [previous] := by simp
      have hptop := hsb.lt_top previous hpmem
      have hplt := hbef previous hpmem
      have hppos := hsp.sorted.pos previous (List.mem_singleton_self _)
      rw [stop_memoryMap, start_memoryMap] at hppos
      have hpsu : u64 (previous.stop + 1) = previous.stop + 1 := u64_of_lt hptop
      have hrev : (before ++ [previous]).reverse = previous :: before.reverse := by simp
      rw [hrev, excludeRegion, hpsu] at h
      split_ifs at h with hjoin
      · obtain ⟨htou', hpty⟩ := hjoin
        obtain rfl := Except.ok.inj h
        simp only [List.reverse_cons, List.reverse_reverse, List.append_nil]
        refine ⟨sortedMap_insert hsb' hsr (by dsimp only; omega) htop
          (fun b hb => ?_) (by simp), fun t a => ?_⟩
        · exact (hprec b hb previous (List.mem_singleton_self _)).congr_right rfl id
        · grind [hasType_append, hasType_cons, hasType_nil, InRange]
      · obtain ⟨⟨new, s₁⟩, hins, h⟩ := bind_eq_ok.mp h
        obtain rfl := pure_eq_ok.mp h
        simp only [List.reverse_cons, List.reverse_reverse]
        refine hinse new s₁ hins fun b hb hbc htype heq => ?_
        rcases List.mem_append.mp hb with hb | hb
        · -- an entry in front of the last one ends before that
          have := (hprec b hb previous (List.mem_singleton_self _)).1
          rw [stop_memoryMap, start_memoryMap] at this
          omega
        · rw [List.mem_singleton.mp hb] at heq hbc
          exact hjoin ⟨heq, hbc.trans htype.symm⟩

/-- A range that meets no entry, and starts behind a free entry only above all others, is put
between the entries. -/
lemma excludeRegion_outside (h : excludeRegion s type begin last [] l = .ok s')
    (hs : SortedMap l) (hran : begin ≤ last) (htop : last + 1 < 2 ^ 64)
    (hout : ∀ e ∈ l, e.stop < begin ∨ last < e.start)
    (htou : type = efiConventionalMemory → ∀ e ∈ l, e.IsConventional → e.stop + 1 = begin →
      ∀ f ∈ l, f.stop < begin) :
    SortedMap s'.gMemoryMap ∧
      Converted l s'.gMemoryMap type begin last := by
  obtain ⟨before, rest, rfl, hbef, hrest⟩ := exists_split hs hout
  obtain ⟨hsb, hsr, -⟩ := sortedMap_append.mp hs
  have hpos : ∀ e ∈ before ++ rest, e.start ≤ e.stop := by
    intro e he
    have := hs.sorted.pos e he
    rw [stop_memoryMap, start_memoryMap] at this
    omega
  rw [excludeRegion_skip hbef hran fun b hb => hpos b (List.mem_append_left _ hb),
    List.append_nil] at h
  have htou' : type = efiConventionalMemory → rest ≠ [] →
      ∀ e ∈ before, e.IsConventional → e.stop + 1 ≠ begin := by
    intro htype hne e he hec heq
    obtain ⟨c, hc⟩ := List.exists_mem_of_ne_nil rest hne
    have hcb := htou htype e (List.mem_append_left _ he) hec heq c (List.mem_append_right _ hc)
    have hcl := hrest c hc
    have hcp := hpos c (List.mem_append_right _ hc)
    omega
  obtain ⟨hsor, htype⟩ :=
    excludeRegion_between h hsb hsr hran htop hbef hrest htou'
  refine ⟨hsor, fun t a => ?_⟩
  have hnot : HasType (before ++ rest) t a → ¬ InRange begin last a := by
    rintro ⟨e, he, -, hea⟩ ⟨hba, hal⟩
    rw [start_memoryMap, stop_memoryMap] at hea
    rcases hout e he with hlt | hlt
    · omega
    · omega
  rw [htype]
  tauto

end Edk2.SmmPage
