import Mathlib.Data.Nat.ModEq
import Edk2.Page.Services

/-!
# The types of pages

Which memory type the map gives to an address, and what the primitive changes of the map do to it.
The statements are about calls that return.
-/

namespace Edk2.Page

open Outcome Segment
open Edk2.Gcd
open Edk2.Pool (MemoryType efiConventionalMemory efiBootServicesData)

variable {cfg : Config} {map before after : List MemoryMap} {depth start stop rangeEnd a : ℕ}
  {S : Set ℕ} {type t u : MemoryType} {attr : BitVec 64} {e e' : MemoryMap} {s s' s'' : State}
  {change : Change} {n numberOfPages fuel : ℕ}

/-- Nothing is said about a call that does not return. -/
abbrev Anyhow : Failure → State → Prop := fun _ _ => True

/-- The map describes the address with the type. -/
def HasType (map : List MemoryMap) (a : ℕ) (type : MemoryType) : Prop :=
  ∃ e ∈ map, (e.start ≤ a ∧ a ≤ e.stop) ∧ e.type = type

instance : Decidable (HasType map a type) :=
  inferInstanceAs (Decidable (∃ e ∈ map, (e.start ≤ a ∧ a ≤ e.stop) ∧ e.type = type))

@[simp] lemma hasType_nil : ¬ HasType [] a t := by simp [HasType]

@[simp] lemma hasType_cons : HasType (e :: map) a t ↔
    ((e.start ≤ a ∧ a ≤ e.stop) ∧ e.type = t) ∨ HasType map a t := by
  simp [HasType]

@[simp] lemma hasType_append {map' : List MemoryMap} :
    HasType (map ++ map') a t ↔ HasType map a t ∨ HasType map' a t := by
  simp only [HasType, List.mem_append, or_and_right, exists_or]

lemma HasType.perm {map' : List MemoryMap} (h : map.Perm map') :
    HasType map a t ↔ HasType map' a t := by
  simp only [HasType, h.mem_iff]

namespace MapOk

lemma not_hasType (h : MapOk (before ++ e :: after) depth S) (ha : e.start ≤ a ∧ a ≤ e.stop) :
    ¬ HasType (before ++ after) a t := by
  rintro ⟨f, hf, hc, -⟩
  have hap : e.stop < f.start ∨ f.stop < e.start := h.perm_cons.1.apart_of_cons hf
  omega

lemma hasType_unique (h : MapOk map depth S) (ht : HasType map a t) (hu : HasType map a u) :
    t = u := by
  obtain ⟨e, he, hc, rfl⟩ := ht
  obtain ⟨before, after, rfl⟩ := List.append_of_mem he
  rw [hasType_append, hasType_cons] at hu
  have hnot : ¬ HasType (before ++ after) a u := h.not_hasType hc
  rw [hasType_append] at hnot
  tauto

end MapOk

lemma hasType_adjoin (attr : BitVec 64) (hmap : ∀ e ∈ map, IsPages e.start e.stop)
    (hpag : IsPages start stop) :
    (HasType (adjoin type attr map start stop).kept a t ∨
        (a ∈ range (adjoin type attr map start stop).start (adjoin type attr map start stop).stop ∧
          t = type)) ↔
      HasType map a t ∨ (a ∈ range start stop ∧ t = type) := by
  induction map generalizing start stop with
  | nil => rfl
  | cons e rest ih =>
    have he := hmap e List.mem_cons_self
    have hrest := fun f hf => hmap f (List.mem_cons_of_mem e hf)
    have hlt := hpag.lt
    have hlt' := he.lt
    rw [adjoin]
    split_ifs with hlab hleft hrig
    · have := ih hrest hpag
      simp only [Adjoined.keep, hasType_cons, or_assoc, this]
    · simp only [not_or, not_not] at hlab
      rw [u64_of_lt he.stop_lt] at hleft
      have hgro : IsPages e.start stop :=
        ⟨he.start_mod, hpag.stop_mod, by omega, hpag.stop_lt⟩
      refine (ih hrest hgro).trans ?_
      have hin : a ∈ range e.start stop ↔ (e.start ≤ a ∧ a ≤ e.stop) ∨ a ∈ range start stop := by
        simp only [mem_range]
        omega
      rw [hasType_cons, hin, hlab.1, @eq_comm _ type, or_and_right, or_left_comm, ← or_assoc]
    · simp only [not_or, not_not] at hlab
      rw [u64_of_lt hpag.stop_lt] at hrig
      have hgro : IsPages start e.stop :=
        ⟨hpag.start_mod, he.stop_mod, by omega, he.stop_lt⟩
      refine (ih hrest hgro).trans ?_
      have hin : a ∈ range start e.stop ↔ (e.start ≤ a ∧ a ≤ e.stop) ∨ a ∈ range start stop := by
        simp only [mem_range]
        omega
      rw [hasType_cons, hin, hlab.1, @eq_comm _ type, or_and_right, or_left_comm, ← or_assoc]
    · have := ih hrest hpag
      simp only [Adjoined.keep, hasType_cons, or_assoc, this]

/-- `mMemoryMapKey` has been incremented `d` times. -/
def Bumps (d : ℕ) (s s' : State) : Prop :=
  s'.mMemoryMapKey ≡ s.mMemoryMapKey + d [MOD 2 ^ 64]

lemma Bumps.refl (s : State) : Bumps 0 s s := Nat.ModEq.refl _

lemma Bumps.trans {d d' : ℕ} (h : Bumps d s s') (h' : Bumps d' s' s'') : Bumps (d + d') s s'' := by
  refine Nat.ModEq.trans h' ?_
  rw [← Nat.add_assoc]
  exact Nat.ModEq.add_right d' h

lemma coreAddRange_types (hmap : ∀ e ∈ s.gMemoryMap, IsPages e.start e.stop)
    (hpag : IsPages start stop) :
    Ends (coreAddRange type start stop attr s)
      (fun _ s' => (∀ a t, HasType s'.gMemoryMap a t ↔
        HasType s.gMemoryMap a t ∨ (a ∈ range start stop ∧ t = type)) ∧ Bumps 1 s s') Anyhow := by
  refine ends_bind (ends_assertThat (fun _ => ?_) trivial)
  refine ends_bind (ends_assertThat (fun _ => ?_) trivial)
  refine ends_bind (ends_assertLocked (fun _ => ?_) trivial)
  refine ends_bind (ends_modify (ends_bind (ends_bind (ends_get (ends_bind (ends_set
    (ends_pure ?_)))))))
  refine ends_bind (ends_modify (ends_bind (ends_get (ends_ite (fun _ => ?_)
    fun _ => ends_throw trivial))))
  refine ends_pure ⟨fun a t => ?_, Nat.mod_modEq _ _⟩
  refine Iff.trans ?_ (hasType_adjoin attr hmap hpag)
  simp only [hasType_append, hasType_cons, hasType_nil, or_false, mem_range]
  exact or_congr_right (and_congr_right fun _ => eq_comm)

lemma pullOut_types (h : MapOk (before ++ e :: after) depth S) (hpag : IsPages start rangeEnd)
    (hlo : e.start ≤ start) (hhi : rangeEnd ≤ e.stop) :
    Ends (pullOut before e after start rangeEnd s)
      (fun _ s' => (∀ a t, HasType s'.gMemoryMap a t ↔
        HasType (before ++ e :: after) a t ∧ a ∉ range start rangeEnd) ∧ Bumps 0 s s') Anyhow := by
  have he := h.pages e (by simp)
  have htop := he.stop_lt
  have hlt := hpag.lt
  have hu : u64 (rangeEnd + 1) = rangeEnd + 1 := u64_of_lt hpag.stop_lt
  -- the other descriptors are apart from the range, so the parts of `e` decide
  have hpar : ∀ l : List MemoryMap, (∀ a t, HasType l a t ↔ HasType (before ++ after) a t ∨
      (((e.start ≤ a ∧ a < start) ∨ (rangeEnd < a ∧ a ≤ e.stop)) ∧ e.type = t)) →
      ∀ a t, HasType l a t ↔ HasType (before ++ e :: after) a t ∧ a ∉ range start rangeEnd := by
    intro l hl a t
    have hnot : HasType (before ++ after) a t → ¬ (e.start ≤ a ∧ a ≤ e.stop) :=
      fun ht hc => h.not_hasType hc ht
    have hmid : HasType (before ++ e :: after) a t ↔
        HasType (before ++ after) a t ∨ ((e.start ≤ a ∧ a ≤ e.stop) ∧ e.type = t) := by
      simp only [hasType_append, hasType_cons]
      rw [or_assoc]
      exact or_congr_right or_comm
    rw [hl, hmid, mem_range]
    constructor
    · grind
    · grind
  have hput : ∀ e' : MemoryMap, e'.type = e.type → (e'.start = u64 (e'.stop + 1) →
      ∀ a, ¬ ((e.start ≤ a ∧ a < start) ∨ (rangeEnd < a ∧ a ≤ e.stop))) →
      (∀ a, (e'.start ≤ a ∧ a ≤ e'.stop) ↔
        ((e.start ≤ a ∧ a < start) ∨ (rangeEnd < a ∧ a ≤ e.stop))) →
      Ends (putClipped before e' after s) (fun _ s' => (∀ a t, HasType s'.gMemoryMap a t ↔
        HasType (before ++ e :: after) a t ∧ a ∉ range start rangeEnd) ∧ Bumps 0 s s') Anyhow := by
    intro e' htype hemp hpoi
    refine ends_ite (fun hnone => ends_modify ⟨hpar _ fun a t => ?_, Bumps.refl s⟩)
      fun _ => ends_modify ⟨hpar _ fun a t => ?_, Bumps.refl s⟩
    · have := hemp hnone a
      tauto
    · simp only [hasType_append, hasType_cons, hpoi, htype]
      tauto
  refine ends_ite (fun hclip => ?_) fun hclip => ends_ite (fun hend => ?_) fun hend => ?_
  · refine hput _ rfl (fun hemp a => ?_) fun a => ?_
    · simp only [hu, u64_of_lt htop] at hemp
      omega
    · simp only [hu]
      omega
  · grind [u64_of_lt]
  · refine ends_bind (ends_modify (ends_bind (ends_assertThat (fun _ => ?_) trivial)))
    refine ends_bind (ends_modify (ends_bind (ends_get (ends_ite (fun _ => ?_)
      fun _ => ends_throw trivial))))
    refine ends_pure ⟨hpar _ fun a t => ?_, Bumps.refl s⟩
    simp only [hasType_append, hasType_cons, hasType_nil, or_false, hu]
    have hlow : a ≤ start - 1 ↔ a < start := by omega
    have hhigh : rangeEnd + 1 ≤ a ↔ rangeEnd < a := Iff.rfl
    rw [hlow, hhigh]
    tauto

lemma Change.count_key (change : Change) (e : MemoryMap) (start numberOfPages : ℕ) (s : State) :
    (change.count e start numberOfPages s).mMemoryMapKey = s.mMemoryMapKey := by
  cases change with
  | type newType =>
    simp only [Change.count, countAllocated, countFreed]
    split_ifs <;> rfl
  | attributes _ => rfl

/-- The pages of the range have got the type, all others have kept theirs. -/
def Retyped (start stop : ℕ) (type : MemoryType) (s s' : State) : Prop :=
  ∀ a t, HasType s'.gMemoryMap a t ↔
    (a ∈ range start stop ∧ t = type) ∨ (a ∉ range start stop ∧ HasType s.gMemoryMap a t)

/-- One iteration either finds no descriptor that it may convert, or it converts the part of the
range that lies in the descriptor. -/
lemma convertEntry_types {newType : MemoryType} (h : MapOk s.gMemoryMap s.mMapDepth S)
    (hdep : s.mMapDepth < maxMapDepth) (hsta : start % efiPageSize = 0)
    (hstop : (stop + 1) % efiPageSize = 0) (hlt : start < stop) :
    Ends (convertEntry (.type newType) numberOfPages start stop s)
      (fun r s' => (r = none ∧ s' = s ∧ ∀ before e after,
          findCover start s.gMemoryMap = some (before, e, after) →
            (Change.type newType).Refused e stop) ∨
        ∃ before e after, findCover start s.gMemoryMap = some (before, e, after) ∧
          ¬ (Change.type newType).Refused e stop ∧ r = some (rangeEndOf e stop) ∧
          (∀ a ∈ range start (rangeEndOf e stop), HasType s.gMemoryMap a e.type) ∧
          Retyped start (rangeEndOf e stop) newType s s' ∧ Bumps 1 s s') Anyhow := by
  refine ends_bind (ends_get ?_)
  rcases hfind : findCover start s.gMemoryMap with _ | ⟨before, e, after⟩
  · exact ends_pure (.inl ⟨rfl, rfl, by simp⟩)
  obtain ⟨hmap, hlo, hhi⟩ := findCover_spec hfind
  refine ends_ite (fun href => ends_pure (.inl ⟨rfl, rfl, ?_⟩)) fun hall => ?_
  · rintro _ _ _ ⟨⟩
    exact href
  obtain ⟨-, hmap', hdep'⟩ := (Change.type newType).count_keeps e start numberOfPages s
  have hkey := (Change.type newType).count_key e start numberOfPages s
  have he := h.pages e (by rw [hmap]; simp)
  have htop := he.stop_lt
  have hran : IsPages start (rangeEndOf e stop) ∧ rangeEndOf e stop ≤ e.stop := by
    unfold rangeEndOf
    split_ifs with hle
    · exact ⟨⟨hsta, he.stop_mod, hhi, htop⟩, le_rfl⟩
    · exact ⟨⟨hsta, hstop, hlt, by omega⟩, not_lt.mp hle⟩
  obtain ⟨hpag, hle⟩ := hran
  have hwas : ∀ a ∈ range start (rangeEndOf e stop), HasType s.gMemoryMap a e.type := by
    simp [mem_range, hmap]
    omega
  refine ends_bind (ends_modify ?_)
  generalize (Change.type newType).count e start numberOfPages s = s₁ at hmap' hdep' hkey
  have hmap₁ : MapOk (before ++ e :: after) s₁.mMapDepth S := by
    rw [hdep', ← hmap]
    exact h
  have hpull := (pullOut_spec hmap₁ (by rw [hdep']; exact hdep) hpag hlo hle).and
    (pullOut_types (s := s₁) hmap₁ hpag hlo hle)
  refine ends_bind (hpull.mono (fun _ s₂ hw => ?_) fun _ _ _ => trivial)
  obtain ⟨hw, htyp₂, hkey₂⟩ := hw
  refine ends_bind ((coreAddRange_types hw.map.pages hpag).imp fun _ s₃ hw' => ?_)
  obtain ⟨htyp₃, hkey₃⟩ := hw'
  refine ends_pure (.inr ⟨before, e, after, rfl, hall, rfl, hwas, fun a t => ?_, ?_⟩)
  · rw [htyp₃, htyp₂, hmap]
    tauto
  · have hbum := hkey₂.trans hkey₃
    rwa [Bumps, hkey] at hbum

end Edk2.Page

/-!
## What the upkeep of the map changes

While pages are converted, `CoreFreeMemoryMapStack` takes pages for descriptors and promotes
untested memory. Apart from that it changes no type: free pages may become boot services data, and
memory that waits for its promotion may come to the map. The increments of `mMemoryMapKey` are
counted against the memory that still waits.
-/

namespace Edk2.Page

open Outcome Segment
open Edk2.Gcd
open Edk2.Pool (MemoryType efiConventionalMemory efiBootServicesData)

variable {cfg : Config} {before after : List MemoryMap} {depth start stop rangeEnd a : ℕ}
  {S : Set ℕ} {type t : MemoryType} {e : MemoryMap} {s s' s'' : State}
  {c m n k numberOfPages fuel : ℕ} {drain : PageM Unit}

/-- The address waits for its promotion. -/
def Waits (cfg : Config) (s : State) (a : ℕ) : Prop :=
  ∃ g ∈ s.mGcdMemorySpaceMap, untested cfg g = true ∧ g.baseAddress ≤ a ∧ a ≤ g.endAddress

/-- The number of ranges that wait for their promotion. -/
def waiting (cfg : Config) (s : State) : ℕ := s.mGcdMemorySpaceMap.countP (untested cfg)

/-- Free pages may have been taken for descriptors, waiting memory may have been promoted. -/
structure Upkeep (cfg : Config) (s s' : State) : Prop where
  kept : ∀ a t, HasType s.gMemoryMap a t → HasType s'.gMemoryMap a t ∨
    (t = efiConventionalMemory ∧ HasType s'.gMemoryMap a efiBootServicesData)
  types : ∀ a t, HasType s'.gMemoryMap a t → HasType s.gMemoryMap a t ∨
    (HasType s.gMemoryMap a efiConventionalMemory ∧ t = efiBootServicesData) ∨
    (Waits cfg s a ∧ (t = efiConventionalMemory ∨ t = efiBootServicesData))
  waits : ∀ a, Waits cfg s' a → Waits cfg s a

lemma efiConventionalMemory_ne : efiConventionalMemory ≠ efiBootServicesData := by decide

namespace Upkeep

lemma of_eq (hmap : s'.gMemoryMap = s.gMemoryMap)
    (hgcd : s'.mGcdMemorySpaceMap = s.mGcdMemorySpaceMap) : Upkeep cfg s s' where
  kept a t ht := .inl (hmap ▸ ht)
  types a t ht := .inl (hmap ▸ ht)
  waits a ha := by
    rwa [Waits, hgcd] at ha

lemma refl (s : State) : Upkeep cfg s s := of_eq rfl rfl

lemma trans (h : Upkeep cfg s s') (h' : Upkeep cfg s' s'') : Upkeep cfg s s'' where
  kept a t ht := by
    rcases h.kept a t ht with ht' | ⟨rfl, ht'⟩
    · exact h'.kept a t ht'
    · rcases h'.kept a _ ht' with ht'' | ⟨heq, -⟩
      · exact .inr ⟨rfl, ht''⟩
      · exact absurd heq.symm efiConventionalMemory_ne
  types a t ht := by
    rcases h'.types a t ht with ht' | ⟨ht', rfl⟩ | ⟨hw, ht'⟩
    · exact h.types a t ht'
    · rcases h.types a _ ht' with ht'' | ⟨-, heq⟩ | ⟨hw, -⟩
      · exact .inr (.inl ⟨ht'', rfl⟩)
      · exact absurd heq efiConventionalMemory_ne
      · exact .inr (.inr ⟨hw, .inr rfl⟩)
    · exact .inr (.inr ⟨h.waits a hw, ht'⟩)
  waits a ha := h.waits a (h'.waits a ha)

lemma of_retyped (h : Retyped start stop efiBootServicesData s s')
    (hwas : ∀ a ∈ range start stop, HasType s.gMemoryMap a efiConventionalMemory)
    (hmap : MapOk s.gMemoryMap depth S) (hgcd : s'.mGcdMemorySpaceMap = s.mGcdMemorySpaceMap) :
    Upkeep cfg s s' where
  kept a t ht := by
    by_cases ha : a ∈ range start stop
    · exact .inr ⟨hmap.hasType_unique ht (hwas a ha), (h a _).mpr (.inl ⟨ha, rfl⟩)⟩
    · exact .inl ((h a t).mpr (.inr ⟨ha, ht⟩))
  types a t ht := by
    rcases (h a t).mp ht with ⟨ha, rfl⟩ | ⟨-, ht⟩
    · exact .inr (.inl ⟨hwas a ha, rfl⟩)
    · exact .inl ht
  waits a ha := by
    rwa [Waits, hgcd] at ha

end Upkeep

/-- `mMemoryMapKey` is incremented at most `n` times, and `c` times for each promoted range. -/
def Charged (cfg : Config) (c n : ℕ) (s s' : State) : Prop :=
  ∃ d, Bumps d s s' ∧ d + c * waiting cfg s' ≤ n + c * waiting cfg s

lemma Charged.trans (h : Charged cfg c n s s') (h' : Charged cfg c m s' s'') :
    Charged cfg c (n + m) s s'' := by
  obtain ⟨d, hd, hle⟩ := h
  obtain ⟨d', hd', hle'⟩ := h'
  exact ⟨d + d', hd.trans hd', by omega⟩

lemma Charged.of_bumps (h : Bumps n s s')
    (hgcd : s'.mGcdMemorySpaceMap = s.mGcdMemorySpaceMap) : Charged cfg c n s s' :=
  ⟨n, h, by rw [waiting, waiting, hgcd]⟩

/-- The upkeep that was started in `s` has come to `s'`. -/
structure Tended (cfg : Config) (c n : ℕ) (s s' : State) : Prop where
  inv : Inv cfg s'
  frame : Frame s s'
  upkeep : Upkeep cfg s s'
  charged : Charged cfg c n s s'

lemma Tended.trans (h : Tended cfg c n s s') (h' : Tended cfg c m s' s'') :
    Tended cfg c (n + m) s s'' :=
  ⟨h'.inv, h.frame.trans h'.frame, h.upkeep.trans h'.upkeep, h.charged.trans h'.charged⟩

lemma Tended.refl (h : Inv cfg s) : Tended cfg c 0 s s :=
  ⟨h, Frame.refl s, Upkeep.refl s, .of_bumps (Bumps.refl s) rfl⟩

lemma Tended.weaken (h : Tended cfg c n s s') (hle : n ≤ m) : Tended cfg c m s s' := by
  obtain ⟨d, hd, hd'⟩ := h.charged
  exact ⟨h.inv, h.frame, h.upkeep, d, hd, by omega⟩

/-- The program keeps the map up. -/
def Tends (cfg : Config) (c m : ℕ) (drain : PageM Unit) : Prop :=
  ∀ t, Inv cfg t → Ends (drain t) (fun _ t' => Tended cfg c m t t') Anyhow

lemma tends_suspendedDrain : Tends cfg c 0 suspendedDrain := by
  intro t ht
  refine ends_bind (ends_assertLocked (fun _ => ?_) trivial)
  refine ends_bind (ends_get (ends_ite (fun _ => ?_) fun _ => ends_throw trivial))
  exact ends_pure (Tended.refl ht)

/-- The pages have been free and have got the type, all others have kept theirs. -/
structure Taken (start stop : ℕ) (type : MemoryType) (s s' : State) : Prop where
  pages : IsPages start stop
  was : ∀ a ∈ range start stop, HasType s.gMemoryMap a efiConventionalMemory
  retyped : Retyped start stop type s s'
  gcdMap : s'.mGcdMemorySpaceMap = s.mGcdMemorySpaceMap

lemma convert_taken (hdra : Tends cfg c m drain) (h : Inv cfg s)
    (htype : type ≠ efiConventionalMemory) :
    Ends (coreConvertPages drain start numberOfPages type s)
      (fun status s' => (status.isError ∧ s' = s) ∨
        ∃ s₁, Taken start (endOfPages start numberOfPages) type s s₁ ∧ Inv cfg s₁ ∧
          Frame s s₁ ∧ Bumps 1 s s₁ ∧ Tended cfg c m s₁ s') Anyhow := by
  have hmod := endOfPages_mod start numberOfPages
  unfold coreConvertPages coreConvertPagesEx
  generalize endOfPages start numberOfPages = stop at hmod ⊢
  refine ends_bind (ends_assertThat (fun _ => ?_) trivial)
  refine ends_bind (ends_assertThat (fun hsta => ?_) trivial)
  refine ends_bind (ends_assertThat (fun hlt => ?_) trivial)
  refine ends_bind (ends_assertLocked (fun _ => ?_) trivial)
  have hstop := hmod hsta
  obtain ⟨k, hk⟩ : ∃ k, stop - start = k + 1 := ⟨stop - start - 1, by omega⟩
  rw [hk, convertLoop]
  refine ends_ite (fun _ => ?_) fun hge => absurd hlt hge
  have hent : Ends (convertEntry (.type type) numberOfPages start stop s) _ _ :=
    convertEntry_spec h.map h.depth_lt hsta hstop hlt
  refine ends_bind ((hent.and (convertEntry_types h.map h.depth_lt hsta hstop hlt)).mono ?_
    fun _ _ _ => trivial)
  rintro r s₁ ⟨hspec, htyp⟩
  rcases hspec with ⟨rfl, rfl⟩ | ⟨rangeEnd, rfl, hconv⟩
  · exact ends_pure (.inl ⟨rfl, rfl⟩)
  rcases htyp with ⟨hnone, -⟩ | ⟨before, e, after, -, hall, heq, hwas, hret, hbum⟩
  · cases hnone
  have hend : rangeEnd = stop := hconv.whole type rfl htype
  cases heq
  rw [hend] at hwas hret
  have hpag : IsPages start stop := ⟨hsta, hstop, hlt, hend ▸ hconv.range_top⟩
  -- what is not refused is converted from free memory
  have hfree : e.type = efiConventionalMemory := by
    by_contra hne
    exact hall (.inr ⟨fun h => absurd h htype, fun h => absurd h hne⟩)
  rw [hfree] at hwas
  have hinv := hconv.toWorked.inv h.untested
  refine ends_bind ((hdra s₁ hinv).imp fun _ s₂ ht => ?_)
  refine convertLoop_done ?_ (.inr ⟨s₁, ⟨hpag, hwas, hret, hconv.keeps.mGcdMemorySpaceMap⟩,
    hinv, hconv.keeps.frame, hbum, ht⟩)
  rw [hend, u64_of_lt hpag.stop_lt]
  exact Nat.le_succ stop

lemma waits_append {done rest : List GcdMapEntry} {g : GcdMapEntry}
    (hgcd : s.mGcdMemorySpaceMap = done ++ g :: rest)
    (hgcd' : s'.mGcdMemorySpaceMap = done ++ promoteEntry cfg.gDxeCoreImageHandle g :: rest)
    (ha : Waits cfg s' a) : Waits cfg s a := by
  obtain ⟨x, hx, hu, hin⟩ := ha
  refine ⟨x, ?_, hu, hin⟩
  rw [hgcd', List.mem_append, List.mem_cons] at hx
  rw [hgcd, List.mem_append, List.mem_cons]
  rcases hx with hx | rfl | hx
  · exact .inl hx
  · rw [untested_promoteEntry] at hu
    cases hu
  · exact .inr (.inr hx)

lemma promoteOne_tended {done rest : List GcdMapEntry} {g : GcdMapEntry} (h : Inv cfg s)
    (hgcd : s.mGcdMemorySpaceMap = done ++ g :: rest) (hg : untested cfg g = true) :
    Ends (addNewRange efiConventionalMemory g.baseAddress g.endAddress (promotedAttributes g)
        { s with mGcdMemorySpaceMap :=
            s.mGcdMemorySpaceMap.set done.length (promoteEntry cfg.gDxeCoreImageHandle g) })
      (fun _ s' => Inv cfg s' ∧ Near s s' ∧ Upkeep cfg s s' ∧ Bumps 1 s s' ∧
        waiting cfg s' + 1 = waiting cfg s ∧
        s'.mGcdMemorySpaceMap = done ++ promoteEntry cfg.gDxeCoreImageHandle g :: rest) Anyhow := by
  have hmem : g ∈ s.mGcdMemorySpaceMap := by simp [hgcd]
  have hpag := h.untested.pages g hmem hg
  have htyp : Ends (addNewRange efiConventionalMemory g.baseAddress g.endAddress
      (promotedAttributes g) { s with
        mGcdMemorySpaceMap :=
          s.mGcdMemorySpaceMap.set done.length (promoteEntry cfg.gDxeCoreImageHandle g) })
      (fun _ s' => (∀ a t, HasType s'.gMemoryMap a t ↔ HasType s.gMemoryMap a t ∨
        (a ∈ range g.baseAddress g.endAddress ∧ t = efiConventionalMemory)) ∧ Bumps 1 s s')
      Anyhow := by
    refine ends_bind (ends_modify ?_)
    exact coreAddRange_types (s := { s with
      mGcdMemorySpaceMap := _, added := _ }) h.map.pages hpag
  refine ((promoteOne_spec h hgcd hg).and htyp).mono ?_ fun _ _ _ => trivial
  rintro - s₁ ⟨⟨hinv, hnear, -, -, -, hgcd₁⟩, htyp, hbum⟩
  refine ⟨hinv, hnear, ⟨fun a t ht => ?_, fun a t ht => ?_, fun a => waits_append hgcd hgcd₁⟩,
    hbum, ?_, hgcd₁⟩
  · exact .inl ((htyp a t).mpr (.inl ht))
  · rcases (htyp a t).mp ht with ht | ⟨ha, rfl⟩
    · exact .inl ht
    · exact .inr (.inr ⟨⟨g, hmem, hg, ha⟩, .inl rfl⟩)
  · simp [waiting, hgcd, hgcd₁, List.countP_append, hg, untested_promoteEntry, Bool.false_eq_true]
    omega

lemma promoteLoop_tended (hdra : Tends cfg c m drain) (done rest : List GcdMapEntry)
    (promoted : Bool) (h : Inv cfg s) (hgcd : s.mGcdMemorySpaceMap = done ++ rest)
    (hlock : s.mGcdMemorySpaceLock = true) :
    Ends (promoteLoop cfg drain rest done.length promoted s)
      (fun _ s' => Inv cfg s' ∧ Outer s s' ∧ Upkeep cfg s s' ∧ Charged cfg (1 + m) 0 s s')
      Anyhow := by
  induction rest generalizing s done promoted with
  | nil => exact ends_pure ⟨h, (Frame.refl s).outer, Upkeep.refl s, .of_bumps (Bumps.refl s) rfl⟩
  | cons g rest ih =>
    refine ends_ite (fun hg => ?_) fun hg => ?_
    · refine ends_bind (ends_modify (ends_bind ((promoteOne_tended h hgcd hg).imp
        fun _ s₁ hw => ?_)))
      obtain ⟨h₁, hnear, hup₁, hbum₁, hcnt₁, hgcd₁⟩ := hw
      refine ends_bind ((hdra s₁ h₁).imp fun _ s₂ ht => ?_)
      have hgcd₂ := ht.frame.gcdMap (hnear.mGcdMemorySpaceLock.trans hlock)
      have hout := hnear.outer.trans ht.frame.outer
      have hlen : done.length + 1 =
          (done ++ [promoteEntry cfg.gDxeCoreImageHandle g]).length := by simp
      rw [hlen]
      refine (ih _ true ht.inv (by simp [hgcd₂, hgcd₁])
        (hout.mGcdMemorySpaceLock.trans hlock)).imp fun _ s₃ hr => ?_
      obtain ⟨h₃, hout₃, hup₃, hcha₃⟩ := hr
      refine ⟨h₃, hout.trans hout₃, (hup₁.trans ht.upkeep).trans hup₃, ?_⟩
      -- the drain costs at most `m`, the range itself one
      obtain ⟨d, hd, hle⟩ := ht.charged
      have hsame : waiting cfg s₂ = waiting cfg s₁ := by rw [waiting, waiting, hgcd₂]
      rw [hsame] at hle
      refine Charged.trans (n := 0) ⟨1 + d, hbum₁.trans hd, ?_⟩ hcha₃
      rw [hsame, ← hcnt₁, Nat.mul_succ]
      omega
    · have hlen : done.length + 1 = (done ++ [g]).length := by simp
      rw [hlen]
      exact ih _ promoted h (by simp [hgcd]) hlock

lemma promote_tended (hdra : Tends cfg c m drain) (h : Inv cfg s) :
    Ends (promoteMemoryResource cfg drain s) (fun _ s' => Tended cfg (1 + m) 0 s s') Anyhow := by
  refine ends_bind (ends_bind (ends_get (ends_bind (ends_assertThat (fun hlock => ?_) trivial))))
  refine ends_modify (ends_bind (ends_modify (ends_bind (ends_get ?_))))
  obtain ⟨p, hp, hobs⟩ : ∃ p, s.promotions <:+ p ∧
      observePromotion cfg { s with mGcdMemorySpaceLock := true } =
        { s with mGcdMemorySpaceLock := true, promotions := p } := by
    unfold observePromotion
    split_ifs
    · exact ⟨_, List.suffix_cons _ _, rfl⟩
    · exact ⟨_, List.suffix_rfl, rfl⟩
  rw [hobs]
  have h₁ : Inv cfg { s with mGcdMemorySpaceLock := true, promotions := p } :=
    ⟨h.map, h.depth_lt, h.untested⟩
  refine ends_bind ((promoteLoop_tended hdra [] s.mGcdMemorySpaceMap false h₁ rfl rfl).imp
    fun _ s₂ hr => ?_)
  obtain ⟨h₂, hout, hup, hcha⟩ := hr
  refine ends_bind (ends_bind (ends_get (ends_bind (ends_assertThat (fun _ => ?_) trivial))))
  refine ends_modify (ends_pure ⟨⟨h₂.map, h₂.depth_lt, h₂.untested⟩, ⟨hout.mFreeMapStack,
    hout.gMemoryLock, hlock.symm, hout.released, hp.trans hout.promotions, ?_⟩,
    ⟨hup.kept, hup.types, hup.waits⟩, hcha⟩)
  intro htrue
  rw [hlock] at htrue
  cases htrue

/-- The search works on one of the maps it comes across. -/
def SearchedIn (cfg : Config) (maxAddress noPages : ℕ) (type : MemoryType) (alignment start : ℕ) :
    Prop :=
  ∃ t, Inv cfg t ∧ start = (searchBins maxAddress noPages type alignment t).1

lemma findInBins_tended {maxAddress noPages alignment : ℕ} (h : Inv cfg s) :
    Ends (findInBins maxAddress noPages type alignment s)
      (fun start s' => Tended cfg c 0 s s' ∧ SearchedIn cfg maxAddress noPages type alignment start)
      Anyhow := by
  obtain ⟨base, heq⟩ := searchBins_snd maxAddress noPages type alignment s
  refine ends_bind (ends_get (ends_bind (ends_set (ends_pure ⟨?_, s, h, rfl⟩))))
  rw [heq]
  exact ⟨⟨h.map, h.depth_lt, h.untested⟩,
    ⟨rfl, rfl, rfl, rfl, List.suffix_rfl, fun _ => rfl⟩, .of_eq rfl rfl,
    .of_bumps (Bumps.refl s) rfl⟩

lemma findFreePages_tended {maxAddress noPages alignment : ℕ} (hdra : Tends cfg c m drain)
    (h : Inv cfg s) :
    Ends (findFreePages cfg drain maxAddress noPages type alignment fuel s)
      (fun start s' => Tended cfg (1 + m) 0 s s' ∧
        (start ≠ 0 → SearchedIn cfg maxAddress noPages type alignment start)) Anyhow := by
  induction fuel generalizing s with
  | zero => exact ends_throw trivial
  | succ fuel ih =>
    refine ends_bind ((findInBins_tended (c := 1 + m) h).imp fun start s₁ h₁ => ?_)
    obtain ⟨ht₁, hsea⟩ := h₁
    refine ends_ite (fun _ => ends_pure ⟨ht₁, fun _ => hsea⟩) fun _ => ?_
    refine ends_bind ((promote_tended hdra ht₁.inv).imp fun promoted s₂ ht₂ => ?_)
    refine ends_ite (fun _ => ?_) fun _ => ends_pure ⟨ht₁.trans ht₂, fun hne => absurd rfl hne⟩
    exact (ih ht₂.inv).imp fun _ s₃ h₃ => ⟨(ht₁.trans ht₂).trans h₃.1, h₃.2⟩

lemma allocatePoolPages_tended {alignment : ℕ} (h : Inv cfg s) :
    Ends (coreAllocatePoolPages cfg suspendedDrain efiBootServicesData numberOfPages alignment s)
      (fun _ s' => Tended cfg 1 1 s s') Anyhow := by
  refine ends_bind ((findFreePages_tended (c := 1) tends_suspendedDrain h).imp
    fun start s₁ h₁ => ?_)
  have ht₁ : Tended cfg 1 0 s s₁ := h₁.1
  refine ends_bind (ends_ite (fun _ => ends_pure (ends_pure ?_)) fun _ => ?_)
  · exact ht₁.weaken (Nat.zero_le 1)
  refine ends_bind ((convert_taken (c := 1) tends_suspendedDrain ht₁.inv
    efiConventionalMemory_ne.symm).imp fun status s₂ h₂ => ends_pure (ends_pure ?_))
  rcases h₂ with ⟨-, rfl⟩ | ⟨s₂', htak, hinv, hfra, hbum, ht₂⟩
  · exact ht₁.weaken (Nat.zero_le 1)
  · have hup : Upkeep cfg s₁ s₂' := .of_retyped htak.retyped htak.was ht₁.inv.map htak.gcdMap
    have ht : Tended cfg 1 1 s₁ s₂' := ⟨hinv, hfra, hup, .of_bumps hbum htak.gcdMap⟩
    exact ht₁.trans (ht.trans ht₂)

lemma tended_freeEntries (h : Inv cfg s) (count : ℕ) :
    Tended cfg c 0 s { s with freeEntries := count } :=
  ⟨⟨h.map, h.depth_lt, h.untested⟩, ⟨rfl, rfl, rfl, rfl, List.suffix_rfl, fun _ => rfl⟩,
    .of_eq rfl rfl, .of_bumps (Bumps.refl s) rfl⟩

lemma allocateMemoryMapEntry_tended (h : Inv cfg s) :
    Ends (allocateMemoryMapEntry cfg suspendedDrain s) (fun _ s' => Tended cfg 1 1 s s')
      Anyhow := by
  refine ends_bind (ends_bind (ends_get (ends_ite (fun _ => ?_) fun _ => ?_)))
  · refine ends_bind ((allocatePoolPages_tended h).imp fun start s₁ ht => ?_)
    refine ends_ite (fun _ => ends_pure (ends_pure ht)) fun _ => ends_bind (ends_modify
      (ends_pure (ends_bind (ends_modify (ends_pure ?_)))))
    exact ht.trans (tended_freeEntries ht.inv _)
  · exact ends_pure (ends_bind (ends_modify (ends_pure
      ((tended_freeEntries h _).weaken (Nat.zero_le 1)))))

lemma popMapStack_tended (h : Inv cfg s) : Tended cfg c 0 s (popMapStack s) := by
  have hlt := h.depth_lt
  unfold popMapStack
  dsimp only
  rcases htake : takeSlot (s.mMapDepth - 1) s.gMemoryMap with _ | ⟨e, rest⟩
  · have hmap : MapOk s.gMemoryMap (s.mMapDepth - 1) (Added s) := by
      rcases Nat.eq_zero_or_pos s.mMapDepth with hz | hpos
      · have hmap := h.map
        rw [hz] at hmap ⊢
        exact hmap
      · refine MapOk.popDead ?_ (takeSlot_eq_none htake)
        rw [Nat.sub_add_cancel hpos]
        exact h.map
    exact ⟨⟨hmap, (Nat.sub_le _ _).trans_lt hlt, h.untested⟩,
      ⟨rfl, rfl, rfl, rfl, List.suffix_rfl, fun _ => rfl⟩, .of_eq rfl rfl,
      .of_bumps (Bumps.refl s) rfl⟩
  · obtain ⟨before, after, hspl, rfl, hslot⟩ := takeSlot_eq_some htake
    have hpos : 0 < s.mMapDepth := by
      have := h.map.slots e (by rw [hspl]; simp) _ hslot
      omega
    have hmap : MapOk (before ++ e :: after) (s.mMapDepth - 1 + 1) (Added s) := by
      rw [Nat.sub_add_cancel hpos, ← hspl]
      exact h.map
    have htyp : ∀ a t, HasType (insertEntry { e with slot := none } (before ++ after)) a t ↔
        HasType s.gMemoryMap a t := by
      intro a t
      rw [HasType.perm (insertEntry_perm _ _), hspl]
      simp only [hasType_cons, hasType_append]
      tauto
    refine ⟨⟨hmap.pop hslot, (Nat.sub_le _ _).trans_lt hlt, h.untested⟩,
      ⟨rfl, rfl, rfl, rfl, List.suffix_rfl, fun _ => rfl⟩, ⟨fun a t ht => ?_, fun a t ht => ?_,
      fun a ha => ha⟩, .of_bumps (Bumps.refl s) rfl⟩
    · exact .inl ((htyp a t).mpr ht)
    · exact .inl ((htyp a t).mp ht)

lemma drainLoop_tended (h : Inv cfg s) :
    Ends (drainLoop cfg suspendedDrain fuel s) (fun _ s' => Tended cfg 1 fuel s s') Anyhow := by
  induction fuel generalizing s with
  | zero =>
    exact ends_bind (ends_get (ends_ite (fun _ => ends_throw trivial) fun _ =>
      ends_pure (Tended.refl h)))
  | succ fuel ih =>
    refine ends_bind (ends_get (ends_ite (fun _ => ?_) fun _ => ?_))
    · refine ends_bind ((allocateMemoryMapEntry_tended h).imp fun available s₁ h₁ => ?_)
      refine ends_bind (ends_assertThat (fun _ => ?_) trivial)
      have h₂ := h₁.trans (popMapStack_tended h₁.inv)
      refine ends_bind (ends_modify ((ih h₂.inv).imp fun _ s' h' => ?_))
      exact (h₂.trans h').weaken (by omega)
    · exact ends_pure ((Tended.refl h).weaken (Nat.zero_le _))

lemma tends_coreFreeMemoryMapStack :
    Tends cfg 1 (2 * maxMapDepth) (coreFreeMemoryMapStack cfg) := by
  intro s h
  refine ends_bind (ends_assertLocked (fun _ => ?_) trivial)
  refine ends_bind (ends_get (ends_ite (fun _ => ?_) fun _ => ?_))
  · exact ends_pure ((Tended.refl h).weaken (Nat.zero_le _))
  refine ends_bind (ends_modify (ends_bind ?_))
  have h₁ : Inv cfg { s with mFreeMapStack := s.mFreeMapStack + 1 } :=
    ⟨h.map, h.depth_lt, h.untested⟩
  refine (drainLoop_tended h₁).imp fun _ s' ht => ?_
  obtain ⟨h₂, hfra, hup, hcha⟩ := ht
  refine ends_modify ⟨⟨h₂.map, h₂.depth_lt, h₂.untested⟩, ⟨?_, hfra.gMemoryLock,
    hfra.mGcdMemorySpaceLock, hfra.released, hfra.promotions, hfra.gcdMap⟩,
    ⟨hup.kept, hup.types, hup.waits⟩, hcha⟩
  simp only [hfra.mFreeMapStack, Nat.add_sub_cancel]

end Edk2.Page
