import Edk2.SmmPage.MemoryMap

/-!
# Where the map entries lie

Changing the map takes new entries from the stack only, at most two at a time, and puts the heap
entries that it no longer needs on the list of free ones. So what holds of all places on the heap
still holds of them afterwards.
-/

namespace Edk2.SmmPage

open Pool (MemoryType assertThat)
open Halting

variable {s s' : State} {l before before' rest rest' : List MemoryMap} {entry entry' : MemoryMap}
  {begin last : ℕ} {type : MemoryType} {A : ℕ → Prop}

/-- The heap entries of a part of the map lie at addresses of the kind `A`. -/
def PlacesIn (A : ℕ → Prop) (l : List MemoryMap) : Prop :=
  ∀ e ∈ l, ∀ address, e.place = .heap address → A address

/-- The free heap entries lie at addresses of the kind `A`. -/
def FreeEntriesIn (A : ℕ → Prop) (s : State) : Prop := ∀ a ∈ s.mFreeMemoryMapEntryList, A a

@[simp] lemma placesIn_nil : PlacesIn A [] := by simp [PlacesIn]

@[simp] lemma placesIn_cons : PlacesIn A (entry :: l) ↔
    (∀ address, entry.place = .heap address → A address) ∧ PlacesIn A l := by
  simp [PlacesIn]

@[simp] lemma placesIn_append {l' : List MemoryMap} :
    PlacesIn A (l ++ l') ↔ PlacesIn A l ∧ PlacesIn A l' := by
  simp [PlacesIn, or_imp, forall_and]

@[simp] lemma placesIn_reverse : PlacesIn A l.reverse ↔ PlacesIn A l := by simp [PlacesIn]

/-- The state `s'` comes from `s` by taking at most `n` entries from the stack; its free pages are
the same, and its free heap entries are of the kind `A`. -/
structure EntriesFrom (A : ℕ → Prop) (n : ℕ) (s s' : State) : Prop where
  depth : s'.mMapDepth ≤ s.mMapDepth + n
  free : FreeEntriesIn A s'
  nodes : s'.mSmmMemoryMap = s.mSmmMemoryMap

lemma EntriesFrom.trans {s₁ s₂ s₃ : State} {m n : ℕ} (h : EntriesFrom A m s₁ s₂)
    (h' : EntriesFrom A n s₂ s₃) : EntriesFrom A (m + n) s₁ s₃ := by
  refine ⟨?_, h'.free, h'.nodes.trans h.nodes⟩
  have := h.depth
  have := h'.depth
  omega

lemma entriesFrom_self {n : ℕ} (hf : FreeEntriesIn A s) : EntriesFrom A n s s :=
  ⟨Nat.le_add_right _ _, hf, rfl⟩

lemma entriesFrom_insertNewEntry (h : insertNewEntry s begin last type = .ok (entry, s'))
    (hf : FreeEntriesIn A s) :
    EntriesFrom A 1 s s' ∧ ∀ address, entry.place = .heap address → A address := by
  obtain ⟨-, rfl, rfl⟩ := insertNewEntry_eq_ok.mp h
  exact ⟨⟨le_rfl, hf, rfl⟩, by simp⟩

lemma entriesFrom_removeOldEntry (hf : FreeEntriesIn A s)
    (he : ∀ address, entry.place = .heap address → A address) :
    EntriesFrom A 0 s (removeOldEntry s entry) := by
  unfold removeOldEntry
  split
  · exact entriesFrom_self hf
  · rename_i address hpla
    refine ⟨le_rfl, fun a ha => ?_, rfl⟩
    rcases List.mem_append.mp ha with ha | ha
    · exact hf a ha
    · exact List.mem_singleton.mp ha ▸ he address hpla

lemma entriesFrom_splitBelow (h : splitBelow s begin before entry = .ok (before', s'))
    (hf : FreeEntriesIn A s) (hb : PlacesIn A before) :
    EntriesFrom A 1 s s' ∧ PlacesIn A before' := by
  unfold splitBelow at h
  split_ifs at h with hspl
  · obtain ⟨⟨below, s₁⟩, hins, h⟩ := bind_eq_ok.mp h
    obtain ⟨rfl, rfl⟩ := Prod.mk.inj (pure_eq_ok.mp h)
    obtain ⟨hfrom, hpla⟩ := entriesFrom_insertNewEntry hins hf
    exact ⟨hfrom, placesIn_cons.mpr ⟨hpla, hb⟩⟩
  · obtain ⟨rfl, rfl⟩ := Prod.mk.inj (Except.ok.inj h)
    exact ⟨entriesFrom_self hf, hb⟩

lemma entriesFrom_splitAbove (h : splitAbove s last entry rest = .ok (rest', s'))
    (hf : FreeEntriesIn A s) (hr : PlacesIn A rest) :
    EntriesFrom A 1 s s' ∧ PlacesIn A rest' := by
  unfold splitAbove at h
  split_ifs at h with hspl
  · obtain ⟨⟨above, s₁⟩, hins, h⟩ := bind_eq_ok.mp h
    obtain ⟨rfl, rfl⟩ := Prod.mk.inj (pure_eq_ok.mp h)
    obtain ⟨hfrom, hpla⟩ := entriesFrom_insertNewEntry hins hf
    exact ⟨hfrom, placesIn_cons.mpr ⟨hpla, hr⟩⟩
  · obtain ⟨rfl, rfl⟩ := Prod.mk.inj (Except.ok.inj h)
    exact ⟨entriesFrom_self hf, hr⟩

lemma entriesFrom_joinNext (h : joinNext s entry rest = (entry', rest', s'))
    (hf : FreeEntriesIn A s) (hr : PlacesIn A (entry :: rest)) :
    EntriesFrom A 0 s s' ∧ PlacesIn A (entry' :: rest') := by
  cases rest with
  | nil =>
    simp only [joinNext, Prod.mk.injEq] at h
    obtain ⟨rfl, rfl, rfl⟩ := h
    exact ⟨entriesFrom_self hf, hr⟩
  | cons next rest =>
    simp only [placesIn_cons] at hr ⊢
    simp only [joinNext] at h
    split_ifs at h
    · simp only [Prod.mk.injEq] at h
      obtain ⟨rfl, rfl, rfl⟩ := h
      exact ⟨entriesFrom_removeOldEntry hf hr.2.1, hr.1, hr.2.2⟩
    · simp only [Prod.mk.injEq] at h
      obtain ⟨rfl, rfl, rfl⟩ := h
      exact ⟨entriesFrom_self hf, by simpa using hr⟩

lemma entriesFrom_joinPrevious (h : joinPrevious s entry rest before = (l, s'))
    (hf : FreeEntriesIn A s) (hb : PlacesIn A before) (hr : PlacesIn A (entry :: rest)) :
    EntriesFrom A 0 s s' ∧ PlacesIn A l := by
  cases before with
  | nil =>
    simp only [joinPrevious, Prod.mk.injEq] at h
    obtain ⟨rfl, rfl⟩ := h
    exact ⟨entriesFrom_self hf, hr⟩
  | cons previous before =>
    rw [placesIn_cons] at hb hr
    simp only [joinPrevious] at h
    split_ifs at h
    · obtain ⟨rfl, rfl⟩ := Prod.mk.inj h
      refine ⟨entriesFrom_removeOldEntry hf hr.1, ?_⟩
      rw [placesIn_append, placesIn_reverse, placesIn_cons]
      exact ⟨hb.2, hb.1, hr.2⟩
    · obtain ⟨rfl, rfl⟩ := Prod.mk.inj h
      refine ⟨entriesFrom_self hf, ?_⟩
      rw [placesIn_append, placesIn_reverse, placesIn_cons, placesIn_cons]
      exact ⟨hb, hr⟩

lemma entriesFrom_convertEntry
    (h : convertEntry s type begin last before entry rest = .ok s') (hf : FreeEntriesIn A s)
    (hb : PlacesIn A before) (hr : PlacesIn A (entry :: rest)) :
    EntriesFrom A 2 s s' ∧ PlacesIn A s'.gMemoryMap := by
  unfold convertEntry at h
  rw [placesIn_cons] at hr
  obtain ⟨⟨before₁, s₁⟩, hbel, h⟩ := bind_eq_ok.mp h
  obtain ⟨⟨rest₁, s₂⟩, habo, h⟩ := bind_eq_ok.mp h
  obtain ⟨h₁, hb₁⟩ := entriesFrom_splitBelow hbel hf hb
  obtain ⟨h₂, hr₂⟩ := entriesFrom_splitAbove habo h₁.free hr.2
  dsimp only at h
  generalize hnext : joinNext s₂ { entry with start := begin, stop := last, type := type } rest₁ =
    next at h
  obtain ⟨entry₁, rest₂, s₃⟩ := next
  obtain ⟨h₃, hr₃⟩ := entriesFrom_joinNext hnext h₂.free (placesIn_cons.mpr ⟨hr.1, hr₂⟩)
  dsimp only at h
  generalize hpre : joinPrevious s₃ entry₁ rest₂ before₁ = previous at h
  obtain ⟨map, s₄⟩ := previous
  obtain ⟨h₄, hm⟩ := entriesFrom_joinPrevious hpre h₃.free hb₁ hr₃
  obtain rfl := pure_eq_ok.mp h
  have hall := ((h₁.trans h₂).trans h₃).trans h₄
  exact ⟨⟨hall.depth, hall.free, hall.nodes⟩, hm⟩

lemma entriesFrom_excludeRegion
    (h : excludeRegion s type begin last before rest = .ok s') (hf : FreeEntriesIn A s)
    (hb : PlacesIn A before) (hr : PlacesIn A rest) (hg : PlacesIn A s.gMemoryMap) :
    EntriesFrom A 2 s s' ∧ PlacesIn A s'.gMemoryMap := by
  have hinse : ∀ {entry s₁ map}, insertNewEntry s begin last type = .ok (entry, s₁) →
      ((∀ address, entry.place = .heap address → A address) → PlacesIn A map) →
      EntriesFrom A 2 s { s₁ with gMemoryMap := map } ∧ PlacesIn A map := by
    intro entry s₁ map hins hmap
    obtain ⟨hfrom, hpla⟩ := entriesFrom_insertNewEntry hins hf
    exact ⟨⟨hfrom.depth.trans (Nat.add_le_add_left (by decide) _), hfrom.free, hfrom.nodes⟩,
      hmap hpla⟩
  induction rest generalizing before with
  | nil =>
    cases before with
    | nil =>
      rw [excludeRegion] at h
      obtain ⟨⟨new, s₁⟩, hins, h⟩ := bind_eq_ok.mp h
      obtain rfl := pure_eq_ok.mp h
      exact hinse hins fun hnew => placesIn_cons.mpr ⟨hnew, placesIn_nil⟩
    | cons previous before =>
      rw [excludeRegion] at h
      split_ifs at h
      · obtain rfl := Except.ok.inj h
        refine ⟨⟨Nat.le_add_right _ _, hf, rfl⟩, ?_⟩
        rw [placesIn_reverse]
        rw [placesIn_cons] at hb ⊢
        exact hb
      · obtain ⟨⟨new, s₁⟩, hins, h⟩ := bind_eq_ok.mp h
        obtain rfl := pure_eq_ok.mp h
        refine hinse hins fun hnew => ?_
        rw [placesIn_reverse, placesIn_cons]
        exact ⟨hnew, hb⟩
  | cons entry rest ih =>
    rw [excludeRegion] at h
    have hr' := placesIn_cons.mp hr
    split_ifs at h
    · obtain rfl := Except.ok.inj h
      refine ⟨⟨Nat.le_add_right _ _, hf, rfl⟩, ?_⟩
      rw [placesIn_append, placesIn_reverse]
      exact ⟨hb, placesIn_cons.mpr hr'⟩
    · obtain ⟨⟨new, s₁⟩, hins, h⟩ := bind_eq_ok.mp h
      obtain rfl := pure_eq_ok.mp h
      refine hinse hins fun hnew => ?_
      rw [placesIn_append, placesIn_reverse, placesIn_cons]
      exact ⟨hb, hnew, hr⟩
    · exact entriesFrom_convertEntry h hf hb hr
    · obtain rfl := Except.ok.inj h
      exact ⟨entriesFrom_self hf, hg⟩
    · exact ih h (placesIn_cons.mpr ⟨hr'.1, hb⟩) hr'.2

end Edk2.SmmPage

/-!
## The page services

Each service keeps the two structures consistent: the list of free pages and the free entries of
the map name the same addresses. The map entries on the heap lie in memory that is neither free
nor owned by a caller, so nothing else is written there. Between two services the stack of map
entries is empty.
-/

namespace Edk2.SmmPage

open Pool (MemoryType efiRuntimeServicesCode efiRuntimeServicesData efiConventionalMemory
  assertThat)
open Extent Halting

variable {s s' s₁ : State} {owned owned' : ℕ → Prop} {type memoryType : ℕ} {status : EfiStatus}
  {numberOfPages memory memory' address a x : ℕ} {l l' : List MemoryMap}

/-- The address lies in memory that the map knows. -/
def Typed (s : State) (a : ℕ) : Prop := ∃ t, HasType s.gMemoryMap t a

/-- A map entry at the address lies in memory that is neither free nor owned by a caller. -/
def Reserved (owned : ℕ → Prop) (s : State) (address : ℕ) : Prop :=
  ∀ x, address ≤ x → x < address + sizeOfMemoryMap →
    ¬ IsFree s.mSmmMemoryMap x ∧ ¬ owned x ∧ Typed s x

/-- The two structures are in order and agree; `owned` are the addresses that were handed out. -/
structure Consistent (owned : ℕ → Prop) (s : State) : Prop where
  freeList : FreeList s.mSmmMemoryMap
  map : SortedMap s.gMemoryMap
  agree : ∀ a, HasType s.gMemoryMap efiConventionalMemory a ↔ IsFree s.mSmmMemoryMap a
  ownedTyped : ∀ a, owned a → ¬ IsFree s.mSmmMemoryMap a ∧ Typed s a
  freeEntries : FreeEntriesIn (Reserved owned s) s
  places : PlacesIn (Reserved owned s) s.gMemoryMap

/-- The step frees no memory and adds none. -/
structure Shrinks (s s' : State) : Prop where
  isFree : ∀ a, IsFree s'.mSmmMemoryMap a → IsFree s.mSmmMemoryMap a
  typed : ∀ a, Typed s' a ↔ Typed s a

lemma Shrinks.refl (s : State) : Shrinks s s := ⟨fun _ h => h, fun _ => .rfl⟩

lemma Shrinks.trans (h : Shrinks s s₁) (h' : Shrinks s₁ s') : Shrinks s s' :=
  ⟨fun a ha => h.isFree a (h'.isFree a ha), fun a => (h'.typed a).trans (h.typed a)⟩

lemma PlacesIn.imp {A B : ℕ → Prop} (h : PlacesIn A l) (hAB : ∀ a, A a → B a) : PlacesIn B l :=
  fun e he address hpla => hAB address (h e he address hpla)

lemma FreeEntriesIn.imp {A B : ℕ → Prop} (h : FreeEntriesIn A s) (hAB : ∀ a, A a → B a) :
    FreeEntriesIn B s :=
  fun a ha => hAB a (h a ha)

lemma Consistent.mono (h : Consistent owned s) (hle : ∀ a, owned' a → owned a) :
    Consistent owned' s := by
  have hres : ∀ a, Reserved owned s a → Reserved owned' s a := fun a ha x hx hx' =>
    ⟨(ha x hx hx').1, fun ho => (ha x hx hx').2.1 (hle x ho), (ha x hx hx').2.2⟩
  exact ⟨h.freeList, h.map, h.agree, fun a ha => h.ownedTyped a (hle a ha), h.freeEntries.imp hres,
    h.places.imp hres⟩

lemma consistent_initialState : Consistent (fun _ => False) initialState :=
  ⟨freeList_nil, ⟨sorted_nil, by simp [initialState]⟩, by simp [initialState, HasType, IsFree],
    fun _ h => h.elim, by simp [FreeEntriesIn, initialState], by simp [initialState]⟩

/-! ### Pages -/

lemma lastAddress_eq (hn : 0 < numberOfPages) (hlt : memory + 4096 * numberOfPages < 2 ^ 64) :
    lastAddress memory numberOfPages = memory + 4096 * numberOfPages - 1 := by
  unfold lastAddress
  rw [add_efiPagesToSize hlt]
  exact sub64_of_le (by omega) hlt

lemma inRange_lastAddress (hn : 0 < numberOfPages)
    (hlt : memory + 4096 * numberOfPages < 2 ^ 64) :
    InRange memory (lastAddress memory numberOfPages) a ↔ InPages memory numberOfPages a := by
  rw [lastAddress_eq hn hlt, InRange, InPages]
  omega

lemma Consistent.exists_entry (h : Consistent owned s) (hn : 0 < numberOfPages)
    (hfree : ∀ a, InPages memory numberOfPages a → IsFree s.mSmmMemoryMap a) :
    ∃ entry ∈ s.gMemoryMap, entry.start ≤ memory ∧
      memory + 4096 * numberOfPages - 1 ≤ entry.stop := by
  have hcov : ∀ a, memory ≤ a → a ≤ memory + 4096 * numberOfPages - 1 →
      CoveredBy MemoryMap.IsConventional s.gMemoryMap a :=
    fun a hle hle' => (h.agree a).mpr (hfree a ⟨hle, by omega⟩)
  obtain ⟨entry, hent, -, hle, hlt⟩ := h.map.sorted.exists_block (by omega) hcov
  rw [start_memoryMap] at hle
  rw [stop_memoryMap] at hlt
  exact ⟨entry, hent, hle, by omega⟩

lemma consistent_of_taken (hI : Consistent owned s) {nodes : List FreePageList}
    (ht : Taken s.mSmmMemoryMap nodes memory numberOfPages) (hn : 0 < numberOfPages)
    (htype : memoryType ≠ efiConventionalMemory)
    (h : convertSmmMemoryMapEntry { s with mSmmMemoryMap := nodes } memoryType memory
      numberOfPages = .ok s') :
    Consistent (fun a => owned a ∨ InPages memory numberOfPages a) s' ∧ Shrinks s s' ∧
      s'.mSmmMemoryMap = nodes := by
  have hlast := lastAddress_eq hn ht.lt_top
  obtain ⟨entry, hent, hle, hle'⟩ := hI.exists_entry hn ht.wasFree
  unfold convertSmmMemoryMapEntry at h
  obtain ⟨hsor, hconv⟩ := excludeRegion_inside h rfl hI.map hent (by omega) hle (by omega)
  obtain ⟨hfrom, hpla⟩ := entriesFrom_excludeRegion (A := Reserved owned s) h hI.freeEntries
    placesIn_nil hI.places hI.places
  have hnod : s'.mSmmMemoryMap = nodes := hfrom.nodes
  have hcon' : ∀ t a, HasType s'.gMemoryMap t a ↔
      InPages memory numberOfPages a ∧ t = memoryType ∨
        ¬ InPages memory numberOfPages a ∧ HasType s.gMemoryMap t a := by
    intro t a
    rw [hconv, inRange_lastAddress hn ht.lt_top]
  have htyp : ∀ a, Typed s' a ↔ Typed s a := by
    intro a
    simp only [Typed, hcon']
    by_cases ha : InPages memory numberOfPages a
    · simp only [ha, true_and, not_true_eq_false, false_and, or_false, exists_eq, true_iff]
      exact ⟨_, (hI.agree a).mpr (ht.wasFree a ha)⟩
    · simp only [ha, false_and, not_false_eq_true, true_and, false_or]
  have hfree : ∀ a, IsFree s'.mSmmMemoryMap a ↔
      IsFree s.mSmmMemoryMap a ∧ ¬ InPages memory numberOfPages a := by
    intro a
    rw [hnod]
    exact ht.isFree_iff a
  have hres : ∀ a, Reserved owned s a →
      Reserved (fun a => owned a ∨ InPages memory numberOfPages a) s' a := by
    intro a ha x hx hx'
    obtain ⟨h₁, h₂, h₃⟩ := ha x hx hx'
    refine ⟨fun hf => h₁ ((hfree x).mp hf).1, ?_, (htyp x).mpr h₃⟩
    rintro (ho | hp)
    · exact h₂ ho
    · exact h₁ (ht.wasFree x hp)
  refine ⟨⟨hnod ▸ ht.freeList, hsor, fun a => ?_, ?_, hfrom.free.imp hres,
    hpla.imp hres⟩, ⟨fun a ha => ((hfree a).mp ha).1, htyp⟩, hnod⟩
  · rw [hcon', hfree, ← hI.agree]
    have hne : ¬ efiConventionalMemory = memoryType := fun heq => htype heq.symm
    simp only [hne, and_false, false_or]
    exact and_comm
  · rintro a (ho | hp)
    · obtain ⟨h₁, h₂⟩ := hI.ownedTyped a ho
      exact ⟨fun hf => h₁ ((hfree a).mp hf).1, (htyp a).mpr h₂⟩
    · exact ⟨fun hf => ((hfree a).mp hf).2 hp, (htyp a).mpr ⟨_, (hI.agree a).mpr (ht.wasFree a hp)⟩⟩

/-- A request that the code can serve is for at least one page, and one at an address does not
wrap around. -/
def SoundRequest (type : AllocateType) (memoryType : MemoryType) (numberOfPages memory : ℕ) :
    Prop :=
  (memoryType = efiRuntimeServicesCode ∨ memoryType = efiRuntimeServicesData) →
    numberOfPages ≤ 2 ^ 52 → type ≤ allocateAddress →
      0 < numberOfPages ∧ (type = allocateAddress → memory + 4096 * numberOfPages < 2 ^ 64)

lemma searchPages_spec {nodes l : List FreePageList} (hl : FreeList l) (hmem : memory < 2 ^ 64)
    (hn : 0 < numberOfPages)
    (hend : type = allocateAddress → memory + 4096 * numberOfPages < 2 ^ 64)
    (h : searchPages l type numberOfPages memory = (status, nodes, address)) :
    (status.isError = true ∧ nodes = l) ∨
      status = .success ∧ Taken l nodes address numberOfPages := by
  unfold searchPages at h
  by_cases hmax : type = allocateAnyPages ∨ type = allocateMaxAddress
  · have hreq : (if type = allocateAnyPages then 2 ^ 64 - 1 else memory) < 2 ^ 64 := by
      split_ifs
      · decide
      · exact hmem
    rw [if_pos hmax] at h
    generalize (if type = allocateAnyPages then 2 ^ 64 - 1 else memory) = requested at h hreq
    rcases internalAllocMaxAddress_spec hl hn hreq with heq | ⟨l', m, heq, ht⟩
    · simp only [heq, if_true, Prod.mk.injEq] at h
      exact .inl ⟨h.1 ▸ rfl, h.2.1.symm⟩
    · simp only [heq, ht.ne_sentinel, if_false, Prod.mk.injEq] at h
      obtain ⟨rfl, rfl, rfl⟩ := h
      exact .inr ⟨rfl, ht⟩
  · rw [if_neg hmax] at h
    by_cases hadd : type = allocateAddress
    · rw [if_pos hadd] at h
      rcases internalAllocAddress_spec hl hn (hend hadd) with ⟨m, hne, heq⟩ | ⟨l', heq, ht⟩
      · simp only [heq, ne_eq, hne, not_false_eq_true, if_true, Prod.mk.injEq] at h
        exact .inl ⟨h.1 ▸ rfl, h.2.1.symm⟩
      · grind
    · rw [if_neg hadd, Prod.mk.injEq, Prod.mk.injEq] at h
      exact .inl ⟨h.1 ▸ rfl, h.2.1.symm⟩

lemma searchPages_of_gt {l : List FreePageList} (htype : allocateAddress < type) :
    searchPages l type numberOfPages memory = (.invalidParameter, l, memory) := by
  have h₀ : type ≠ allocateAnyPages := by
    rintro rfl
    exact absurd htype (by decide)
  have h₁ : type ≠ allocateMaxAddress := by
    rintro rfl
    exact absurd htype (by decide)
  simp [searchPages, h₀, h₁, htype.ne']

lemma takePages_spec (hI : Consistent owned s) (hmem : memory < 2 ^ 64)
    (hr : SoundRequest type memoryType numberOfPages memory)
    (h : takePages s type memoryType numberOfPages memory = .ok (status, memory', s')) :
    (status.isError = true ∧ s' = s) ∨
      status = .success ∧ 0 < numberOfPages ∧
        Taken s.mSmmMemoryMap s'.mSmmMemoryMap memory' numberOfPages ∧
        Consistent (fun a => owned a ∨ InPages memory' numberOfPages a) s' ∧ Shrinks s s' := by
  unfold takePages at h
  split_ifs at h with hbad hmany
  · obtain ⟨rfl, -, rfl⟩ : .invalidParameter = status ∧ memory = memory' ∧ s = s' := by
      simpa using h
    exact .inl ⟨rfl, rfl⟩
  · obtain ⟨rfl, -, rfl⟩ : .outOfResources = status ∧ memory = memory' ∧ s = s' := by
      simpa using h
    exact .inl ⟨rfl, rfl⟩
  · generalize hsea : searchPages s.mSmmMemoryMap type numberOfPages memory = found at h
    obtain ⟨status₁, nodes, address⟩ := found
    dsimp only at h
    have htyp : memoryType = efiRuntimeServicesCode ∨ memoryType = efiRuntimeServicesData := by
      tauto
    have hle : numberOfPages ≤ 2 ^ 52 := by
      rw [truncateToPages_eq] at hmany
      omega
    by_cases htype : type ≤ allocateAddress
    · obtain ⟨hn, hend⟩ := hr htyp hle htype
      rcases searchPages_spec hI.freeList hmem hn hend hsea with ⟨herr, rfl⟩ | ⟨rfl, ht⟩
      · rw [if_pos herr] at h
        obtain ⟨rfl, -, rfl⟩ : status₁ = status ∧ address = memory' ∧ s = s' := by simpa using h
        exact .inl ⟨herr, rfl⟩
      · rw [if_neg (by decide)] at h
        obtain ⟨s₁, hconv, h⟩ := bind_eq_ok.mp h
        obtain ⟨rfl, rfl, rfl⟩ : .success = status ∧ address = memory' ∧ s₁ = s' := by
          simpa using pure_eq_ok.mp h
        have hne : memoryType ≠ efiConventionalMemory := by
          rcases htyp with rfl | rfl
          · decide
          · decide
        obtain ⟨hI', hshr, hnod⟩ := consistent_of_taken hI ht hn hne hconv
        exact .inr ⟨rfl, hn, hnod ▸ ht, hI', hshr⟩
    · rw [searchPages_of_gt (Nat.not_le.mp htype)] at hsea
      obtain ⟨rfl, rfl, rfl⟩ : .invalidParameter = status₁ ∧ s.mSmmMemoryMap = nodes ∧
        memory = address := by simpa using hsea
      rw [if_pos (by decide)] at h
      obtain ⟨rfl, -, rfl⟩ : .invalidParameter = status ∧ memory = memory' ∧ s = s' := by
        simpa using h
      exact .inl ⟨rfl, rfl⟩

/-! ### Moving the stack to the heap -/

lemma sortedMap_map {f : MemoryMap → MemoryMap} (hs : SortedMap l)
    (hf : ∀ e, (f e).start = e.start ∧ (f e).stop = e.stop ∧ (f e).type = e.type) :
    SortedMap (l.map f) := by
  refine ⟨⟨fun e he => ?_, ?_⟩, fun e he => ?_⟩
  · obtain ⟨e, he', rfl⟩ := List.mem_map.mp he
    obtain ⟨hsta, hstop, -⟩ := hf e
    have := hs.sorted.pos e he'
    rw [start_memoryMap, stop_memoryMap] at this ⊢
    rwa [hsta, hstop]
  · rw [List.pairwise_map]
    refine hs.sorted.pairwise.imp fun {b c} hbc => ?_
    obtain ⟨-, hstop, htype⟩ := hf b
    obtain ⟨hsta', -, htyp'⟩ := hf c
    refine (hbc.congr_left ?_ fun hb => htype.symm.trans hb).congr_right ?_
      fun hc => htyp'.symm.trans hc
    · rw [stop_memoryMap, stop_memoryMap, hstop]
    · rw [start_memoryMap, start_memoryMap, hsta']
  · obtain ⟨e, he', rfl⟩ := List.mem_map.mp he
    rw [(hf e).2.1]
    exact hs.lt_top e he'

lemma hasType_map {f : MemoryMap → MemoryMap} {t : MemoryType}
    (hf : ∀ e, (f e).start = e.start ∧ (f e).stop = e.stop ∧ (f e).type = e.type) :
    HasType (l.map f) t a ↔ HasType l t a := by
  simp only [HasType, CoveredBy, List.mem_map, exists_exists_and_eq_and, start_memoryMap,
    stop_memoryMap, hf]

lemma moveToHeap_eq (slot address : ℕ) (e : MemoryMap) :
    (moveToHeap slot address e).start = e.start ∧ (moveToHeap slot address e).stop = e.stop ∧
      (moveToHeap slot address e).type = e.type := by
  unfold moveToHeap
  split_ifs <;> exact ⟨rfl, rfl, rfl⟩

lemma consistent_moveToHeap {slot depth : ℕ} (hI : Consistent owned s)
    (ha : Reserved owned s address) :
    Consistent owned { s with
      mMapDepth := depth
      gMemoryMap := s.gMemoryMap.map (moveToHeap slot address) } := by
  have hmove := moveToHeap_eq slot address
  have htyp : ∀ a, Typed { s with
      mMapDepth := depth
      gMemoryMap := s.gMemoryMap.map (moveToHeap slot address) } a ↔ Typed s a := by
    intro a
    simp only [Typed, hasType_map hmove]
  have hres : ∀ a, Reserved owned s a → Reserved owned { s with
      mMapDepth := depth
      gMemoryMap := s.gMemoryMap.map (moveToHeap slot address) } a := fun a ha x hx hx' =>
    ⟨(ha x hx hx').1, (ha x hx hx').2.1, (htyp x).mpr (ha x hx hx').2.2⟩
  refine ⟨hI.freeList, sortedMap_map hI.map hmove, fun a => ?_, fun a ho => ?_,
    hI.freeEntries.imp hres, fun e he a hpla => ?_⟩
  · exact (hasType_map hmove).trans (hI.agree a)
  · exact ⟨(hI.ownedTyped a ho).1, (htyp a).mpr (hI.ownedTyped a ho).2⟩
  · obtain ⟨e, he', rfl⟩ := List.mem_map.mp he
    unfold moveToHeap at hpla
    split_ifs at hpla
    · obtain rfl : address = a := by simpa using hpla
      exact hres _ ha
    · exact hres _ (hI.places e he' a hpla)

lemma mem_newMemoryMapEntries (ha : a ∈ newMemoryMapEntries memory) (hx : a ≤ x)
    (hx' : x < a + sizeOfMemoryMap) : InPages memory 1 x := by
  unfold newMemoryMapEntries at ha
  obtain ⟨index, hind, rfl⟩ := List.mem_map.mp ha
  have hlt : index < 85 := List.mem_range.mp hind
  unfold InPages
  unfold sizeOfMemoryMap at hx hx'
  omega

lemma refillMemoryMapEntries_spec (hI : Consistent owned s)
    (h : refillMemoryMapEntries s = .ok s') :
    Consistent owned s' ∧ Shrinks s s' := by
  unfold refillMemoryMapEntries at h
  cases hlist : s.mFreeMemoryMapEntryList with
  | cons entry rest =>
    rw [hlist] at h
    obtain rfl := Except.ok.inj h
    exact ⟨hI, .refl s⟩
  | nil =>
    rw [hlist] at h
    obtain ⟨⟨status, memory, s₂⟩, htake, h⟩ := bind_eq_ok.mp h
    obtain ⟨⟨⟩, hok, h⟩ := bind_eq_ok.mp h
    obtain rfl := pure_eq_ok.mp h
    have hsou : SoundRequest allocateAnyPages efiRuntimeServicesData
        (runtimePageAllocationGranularity / efiPageSize) 0 :=
      fun _ _ _ => ⟨by decide, fun h => absurd h (by decide)⟩
    rcases takePages_spec hI (by decide) hsou htake with ⟨herr, -⟩ | ⟨-, -, htak, hI₂, hshr⟩
    · rw [assertThat_eq_ok, herr] at hok
      exact absurd hok (by decide)
    · have hI₂' : Consistent owned s₂ := hI₂.mono fun a ha => .inl ha
      have hnew : FreeEntriesIn (Reserved owned s₂)
          { s₂ with mFreeMemoryMapEntryList := newMemoryMapEntries memory } := by
        intro a ha x hx hx'
        have hpage : InPages memory (runtimePageAllocationGranularity / efiPageSize) x :=
          mem_newMemoryMapEntries ha hx hx'
        have hfree := htak.wasFree x hpage
        refine ⟨fun hf => ((htak.isFree_iff x).mp hf).2 hpage, fun ho => ?_, ?_⟩
        · exact (hI.ownedTyped x ho).1 hfree
        · exact (hshr.typed x).mpr ⟨_, (hI.agree x).mpr hfree⟩
      exact ⟨⟨hI₂'.freeList, hI₂'.map, hI₂'.agree, hI₂'.ownedTyped, hnew, hI₂'.places⟩,
        ⟨hshr.isFree, hshr.typed⟩⟩

lemma allocateMemoryMapEntry_spec (hI : Consistent owned s)
    (h : allocateMemoryMapEntry s = .ok (address, s')) :
    Consistent owned s' ∧ Reserved owned s' address ∧ Shrinks s s' := by
  unfold allocateMemoryMapEntry at h
  obtain ⟨s₁, href, h⟩ := bind_eq_ok.mp h
  obtain ⟨hI₁, hshr⟩ := refillMemoryMapEntries_spec hI href
  cases hlist : s₁.mFreeMemoryMapEntryList with
  | nil =>
    rw [hlist] at h
    cases h
  | cons entry rest =>
    rw [hlist] at h
    obtain ⟨rfl, rfl⟩ := Prod.mk.inj (pure_eq_ok.mp h)
    have hfree := hI₁.freeEntries
    unfold FreeEntriesIn at hfree
    rw [hlist] at hfree
    exact ⟨⟨hI₁.freeList, hI₁.map, hI₁.agree, hI₁.ownedTyped,
      fun a ha => hfree a (List.mem_cons_of_mem _ ha), hI₁.places⟩,
      hfree entry List.mem_cons_self,
      ⟨hshr.isFree, hshr.typed⟩⟩

lemma shrinks_moveToHeap {slot depth : ℕ} : Shrinks s { s with
    mMapDepth := depth
    gMemoryMap := s.gMemoryMap.map (moveToHeap slot address) } := by
  refine ⟨fun _ h => h, fun a => ?_⟩
  simp only [Typed, hasType_map (moveToHeap_eq slot address)]

lemma freeMemoryMapStackLoop_spec (fuel : ℕ) (hI : Consistent owned s)
    (h : freeMemoryMapStackLoop fuel s = .ok s') :
    Consistent owned s' ∧ Shrinks s s' ∧ s'.mMapDepth = 0 := by
  induction fuel generalizing s with
  | zero =>
    unfold freeMemoryMapStackLoop at h
    split_ifs at h with hzero
    obtain rfl := Except.ok.inj h
    exact ⟨hI, .refl s, Decidable.not_not.mp hzero⟩
  | succ fuel ih =>
    unfold freeMemoryMapStackLoop at h
    split_ifs at h with hzero
    · obtain ⟨⟨address, s₁⟩, hall, h⟩ := bind_eq_ok.mp h
      obtain ⟨hI₁, hres, hshr⟩ := allocateMemoryMapEntry_spec hI hall
      obtain ⟨hI', hshr', hdep⟩ := ih (consistent_moveToHeap hI₁ hres) h
      exact ⟨hI', (hshr.trans shrinks_moveToHeap).trans hshr', hdep⟩
    · obtain rfl := Except.ok.inj h
      exact ⟨hI, .refl s, Decidable.not_not.mp hzero⟩

lemma coreFreeMemoryMapStack_spec (hI : Consistent owned s)
    (h : coreFreeMemoryMapStack s = .ok s') :
    Consistent owned s' ∧ Shrinks s s' ∧ s'.mMapDepth = 0 := by
  unfold coreFreeMemoryMapStack at h
  obtain ⟨⟨⟩, hok, h⟩ := bind_eq_ok.mp h
  obtain ⟨s₁, hloop, h⟩ := bind_eq_ok.mp h
  obtain rfl := pure_eq_ok.mp h
  have hI₀ : Consistent owned { s with mFreeMapStack := s.mFreeMapStack + 1 } :=
    ⟨hI.freeList, hI.map, hI.agree, hI.ownedTyped, hI.freeEntries, hI.places⟩
  obtain ⟨hI₁, hshr, hdep⟩ := freeMemoryMapStackLoop_spec _ hI₀ hloop
  exact ⟨⟨hI₁.freeList, hI₁.map, hI₁.agree, hI₁.ownedTyped, hI₁.freeEntries, hI₁.places⟩,
    ⟨hshr.isFree, hshr.typed⟩, hdep⟩

/-- `SmmAllocatePages` and `SmmInternalAllocatePages`: the pages were free and are now owned, or
nothing changes. -/
lemma smmInternalAllocatePages_spec (hI : Consistent owned s) (hmem : memory < 2 ^ 64)
    (hr : SoundRequest type memoryType numberOfPages memory)
    (h : smmInternalAllocatePages s type memoryType numberOfPages memory =
      .ok (status, memory', s')) :
    (status.isError = true ∧ s' = s) ∨
      status = .success ∧ 0 < numberOfPages ∧
        Consistent (fun a => owned a ∨ InPages memory' numberOfPages a) s' ∧ Shrinks s s' ∧
        (∀ a, InPages memory' numberOfPages a → IsFree s.mSmmMemoryMap a) ∧
        s'.mMapDepth = 0 := by
  unfold smmInternalAllocatePages at h
  obtain ⟨⟨status₁, memory₁, s₁⟩, htake, hrest⟩ := bind_eq_ok.mp h
  dsimp only at hrest
  rcases takePages_spec hI hmem hr htake with ⟨herr, rfl⟩ | ⟨rfl, hn, htak, hI₁, hshr⟩
  · rw [if_pos herr] at hrest
    obtain ⟨rfl, -, rfl⟩ : status₁ = status ∧ memory₁ = memory' ∧ s₁ = s' := by
      simpa using pure_eq_ok.mp hrest
    exact .inl ⟨herr, rfl⟩
  · rw [if_neg (by decide)] at hrest
    obtain ⟨s₂, hfree, hrest⟩ := bind_eq_ok.mp hrest
    obtain ⟨rfl, rfl, rfl⟩ : .success = status ∧ memory₁ = memory' ∧ s₂ = s' := by
      simpa using pure_eq_ok.mp hrest
    obtain ⟨hI', hshr', hdep⟩ := coreFreeMemoryMapStack_spec hI₁ hfree
    exact .inr ⟨rfl, hn, hI', hshr.trans hshr', htak.wasFree, hdep⟩

end Edk2.SmmPage
