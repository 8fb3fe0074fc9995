import Edk2.Gcd.Space

/-!
# Attributes and capabilities of the GCD memory map

`CoreConvertSpace` refuses attributes that a range does not declare and capabilities that do not
include the attributes in use. Three paths go around these checks: removing a range clears its
capabilities but keeps its attributes, adding a range replaces the capabilities of what is there,
and setting attributes without CPU attributes carries the CPU attributes of one entry over to the
next. On every run that avoids these three, each entry declares the attributes it carries.
-/

namespace Edk2.Gcd

/-- Every bit of `a` is in `c`. -/
def Declared (a c : BitVec 64) : Prop := a &&& c = a

instance (a c : BitVec 64) : Decidable (Declared a c) := inferInstanceAs (Decidable (_ = _))

lemma declared_iff {a c : BitVec 64} :
    Declared a c ↔ ∀ i, i < 64 → a.getLsbD i = true → c.getLsbD i = true := by
  constructor
  · intro h i hi ha
    have := congrArg (fun x => BitVec.getLsbD x i) h
    grind
  · intro h
    refine BitVec.eq_of_getLsbD_eq fun i hi => ?_
    grind

variable {a a' c c' mask : BitVec 64}

lemma Declared.zero : Declared 0 c := by simp [Declared]

lemma Declared.or (h : Declared a c) (h' : Declared a' c) : Declared (a ||| a') c := by
  rw [declared_iff] at *
  grind

lemma Declared.and (h : Declared a c) : Declared (a &&& mask) c := by
  rw [declared_iff] at *
  grind

lemma Declared.mono (h : Declared a c) : Declared a (c ||| c') := by
  rw [declared_iff] at *
  grind

/-- The fields declare the attributes they carry. -/
def AttributesDeclared (f : GcdFields) : Prop := Declared f.attributes f.capabilities

/-- A condition on the value of `Attributes` and the fields still to be rewritten that lets the
loop keep every entry declared. The loop may meet the entry it has just split once more. -/
structure Keeps (u : Update) (K : BitVec 64 → List GcdFields → Prop) : Prop where
  declared : ∀ {w f l}, K w (f :: l) → AttributesDeclared f ∧ AttributesDeclared (u w f).2
  again : ∀ {w f l}, K w (f :: l) → K (u w f).1 (f :: l)
  tail : ∀ {w f l}, K w (f :: l) → K w l

variable {u : Update} {K : BitVec 64 → List GcdFields → Prop} {b n k : ℕ} {w : BitVec 64}
  {p : PadEntries} {e : GcdMapEntry} {l map : List GcdMapEntry}

lemma coreInsertGcdMapEntry_fields {r : InsertResult}
    (h : coreInsertGcdMapEntry b n p e = .ok r) :
    (∀ f ∈ r.bottom, f.toGcdFields = e.toGcdFields) ∧ r.entry.toGcdFields = e.toGcdFields ∧
      (r.top = [] ∨ ∃ f, r.top = [f] ∧ f.toGcdFields = e.toGcdFields) := by
  unfold coreInsertGcdMapEntry insertBottom at h
  split_ifs at h
  · cases h
  · grind [Except.bind, insertTop]
  grind [Except.bind, insertTop]

lemma updateLoop_declared (hK : Keeps u K) {r : UpdateResult}
    (h : updateLoop u b n k p w l = .ok r) (hl : K w (l.map GcdMapEntry.toGcdFields)) :
    ∀ e ∈ r.bottom ++ r.run ++ r.top, AttributesDeclared e.toGcdFields := by
  induction k generalizing p w l r with
  | zero =>
    cases l with
    | nil =>
      cases h
      simp
    | cons e l => cases h
  | succ k ih =>
    cases l with
    | nil =>
      cases h
      simp
    | cons e l =>
      obtain ⟨hold, hnew⟩ := hK.declared hl
      simp only [updateLoop] at h
      cases hins : coreInsertGcdMapEntry b n p e with
      | error _ =>
        rw [hins] at h
        cases h
      | ok i =>
        obtain ⟨hbot, hent, htop⟩ := coreInsertGcdMapEntry_fields hins
        simp only [hins, Except.bind, hent] at h
        cases l with
        | nil =>
          grind
        | cons g l =>
          -- what is left to visit: the top part of this entry, if any, then the rest
          have hrest : K (u w e.toGcdFields).1 ((i.top ++ g :: l).map GcdMapEntry.toGcdFields) := by
            rcases htop with hnil | ⟨d, hd, hde⟩
            · rw [hnil]
              exact hK.tail (hK.again hl)
            · rw [hd]
              simpa [hde] using hK.again hl
          cases hrec : updateLoop u b n k i.pads (u w e.toGcdFields).1 (i.top ++ g :: l) with
          | error _ =>
            rw [hrec] at h
            cases h
          | ok r' =>
            grind

lemma mergeBackward_mem {before : List GcdMapEntry} {P : GcdFields → Prop}
    (h : ∀ f ∈ before, P f.toGcdFields) (he : P e.toGcdFields) :
    (∀ f ∈ (mergeBackward before e).1, P f.toGcdFields) ∧
      P (mergeBackward before e).2.toGcdFields := by
  cases before with
  | nil => exact ⟨h, he⟩
  | cons d before =>
    grind [mergeBackward]

lemma mergeForward_mem {after : List GcdMapEntry} {P : GcdFields → Prop}
    (h : ∀ f ∈ after, P f.toGcdFields) (he : P e.toGcdFields) :
    ∀ f ∈ mergeForward e after, P f.toGcdFields := by
  cases after with
  | nil => simpa [mergeForward] using he
  | cons d after =>
    simp only [mergeForward]
    grind

lemma cleanupLoop_mem {before after : List GcdMapEntry} {P : GcdFields → Prop}
    (hb : ∀ f ∈ before, P f.toGcdFields) (hl : ∀ f ∈ l, P f.toGcdFields)
    (ha : ∀ f ∈ after, P f.toGcdFields) :
    ∀ f ∈ cleanupLoop before l after, P f.toGcdFields := by
  induction l generalizing before with
  | nil =>
    grind [cleanupLoop]
  | cons e l ih =>
    obtain ⟨he, hl⟩ := List.forall_mem_cons.mp hl
    obtain ⟨hb', he'⟩ := mergeBackward_mem hb he
    cases l with
    | nil =>
      simp only [cleanupLoop, List.mem_append, List.mem_reverse]
      exact fun f hf => hf.elim (hb' f) (mergeForward_mem ha he' f)
    | cons g l =>
      grind [cleanupLoop]

/-- Every entry of the map declares the attributes it carries. -/
def MapDeclared (map : List GcdMapEntry) : Prop := ∀ e ∈ map, AttributesDeclared e.toGcdFields

lemma rewriteRange_declared (hK : Keeps u K) {i j : ℕ} {map' : List GcdMapEntry}
    (hmap : MapDeclared map) (h : rewriteRange u w b n i j map = .ok map')
    (hl : K w ((slice map i j).2.1.map GcdMapEntry.toGcdFields)) : MapDeclared map' := by
  simp only [rewriteRange] at h
  cases hloop : updateLoop u b n ((slice map i j).2.1.length + 1) {} w (slice map i j).2.1 with
  | error _ =>
    rw [hloop] at h
    cases h
  | ok r =>
    have hall := updateLoop_declared hK hloop hl
    rw [hloop] at h
    cases h
    refine cleanupLoop_mem ?_ ?_ ?_
    · intro f hf
      rw [List.mem_reverse, List.mem_append] at hf
      rcases hf with hf | hf
      · exact hmap f (List.mem_of_mem_take hf)
      · exact hall f (by simp [hf])
    · exact fun f hf => hall f (by simp [hf])
    · intro f hf
      rcases List.mem_append.mp hf with hf | hf
      · exact hall f (by simp [hf])
      · exact hmap f (List.mem_of_mem_drop hf)

lemma mem_slice {i j : ℕ} (h : e ∈ (slice map i j).2.1) : e ∈ map :=
  List.mem_of_mem_drop (List.mem_of_mem_take h)

lemma keeps_stateless (hu : ∀ w f, (u w f).1 = w) :
    Keeps u fun w l => ∀ g ∈ l, AttributesDeclared g ∧ AttributesDeclared (u w g).2 where
  declared h := h _ List.mem_cons_self
  again h := by rwa [hu]
  tail h := fun g hg => h g (List.mem_cons_of_mem _ hg)

/-- When the CPU attributes of earlier entries are carried over, every later entry has to declare
them. -/
def CarryDeclared (w : BitVec 64) (l : List GcdFields) : Prop :=
  (∀ g ∈ l, AttributesDeclared g ∧ Declared w g.capabilities) ∧
    l.Pairwise fun f g => Declared (f.attributes &&& cpuMemoryAttributes) g.capabilities

lemma keeps_carry (r : ConvertRequest) :
    Keeps (convertEntry .setAttributesMemory r 0) CarryDeclared where
  declared h := by
    obtain ⟨hf, hw⟩ := h.1 _ List.mem_cons_self
    exact ⟨hf, hw.or hf.and⟩
  again h := by
    obtain ⟨hall, hpair⟩ := h
    refine ⟨fun g hg => ⟨(hall g hg).1, (hall g hg).2.or ?_⟩, hpair⟩
    rcases List.mem_cons.mp hg with rfl | hg
    · exact Declared.and (hall _ List.mem_cons_self).1
    · exact (List.pairwise_cons.mp hpair).1 g hg
  tail h := ⟨fun g hg => h.1 g (List.mem_cons_of_mem _ hg), (List.pairwise_cons.mp h.2).2⟩

/-- The capabilities that an add operation gives to a range. -/
def addedCapabilities (r : ConvertRequest) : BitVec 64 :=
  if r.gcdMemoryType = .memoryMappedIo then r.capabilities ||| efiMemoryRuntime ||| efiMemoryPortIo
  else r.capabilities ||| efiMemoryRuntime

/-- The condition on the covered entries under which an operation keeps attributes declared. -/
def AttributesKept (operation : GcdOperation) (r : ConvertRequest) (l : List GcdMapEntry) : Prop :=
  match operation with
  | .addMemory => ∀ e ∈ l, Declared e.attributes (addedCapabilities r)
  | .removeMemory => ∀ e ∈ l, e.attributes = 0
  | .setAttributesMemory =>
    converToCpuArchAttributes r.attributes = 0 →
      l.Pairwise fun e f => Declared (e.attributes &&& cpuMemoryAttributes) f.capabilities
  | _ => True

instance (operation : GcdOperation) (r : ConvertRequest) (l : List GcdMapEntry) :
    Decidable (AttributesKept operation r l) :=
  match operation with
  | .addMemory => inferInstanceAs (Decidable (∀ e ∈ l, _))
  | .removeMemory => inferInstanceAs (Decidable (∀ e ∈ l, _))
  | .setAttributesMemory => inferInstanceAs (Decidable (_ → l.Pairwise _))
  | .allocateMemory | .freeMemory | .setCapabilitiesMemory | .addIo | .allocateIo | .freeIo
  | .removeIo => inferInstanceAs (Decidable True)

variable {o : GcdOperation} {r : ConvertRequest} {env : Environment} {map' : List GcdMapEntry}

lemma checkEntries_ok {check : GcdMapEntry → EfiStatus} (h : ¬ (checkEntries check l).isError) :
    ∀ e ∈ l, ¬ (check e).isError := by
  induction l with
  | nil => simp
  | cons e l ih =>
    simp only [checkEntries] at h
    grind

lemma setAttributes_check (h : ¬ (convertCheckEntry .setAttributesMemory r e).isError) :
    Declared r.attributes e.capabilities := by
  simp only [convertCheckEntry] at h
  split_ifs at h with h₁ h₂
  · exact absurd rfl h
  · exact absurd rfl h
  · rw [not_not, BitVec.and_comm] at h₂
    exact h₂

lemma setCapabilities_check (h : ¬ (convertCheckEntry .setCapabilitiesMemory r e).isError) :
    Declared e.attributes r.capabilities := by
  simp only [convertCheckEntry] at h
  split_ifs at h with h₁ h₂
  · exact absurd rfl h
  · exact absurd rfl h
  · rw [not_not, BitVec.and_comm] at h₂
    exact h₂

lemma convertEntry_declared {i j : ℕ} (hmap : MapDeclared map)
    (hche : ∀ e ∈ (slice map i j).2.1, ¬ (convertCheckEntry o r e).isError)
    (hkept : AttributesKept o r (slice map i j).2.1)
    (h : rewriteRange (convertEntry o r (cpuArchAttributesOf o r)) r.attributes b n i j map =
      .ok map') : MapDeclared map' := by
  have hold : ∀ e ∈ (slice map i j).2.1, AttributesDeclared e.toGcdFields :=
    fun e he => hmap e (mem_slice he)
  -- an operation that does not thread `Attributes` is checked entry by entry
  have hsta (hu : ∀ w f, (convertEntry o r (cpuArchAttributesOf o r) w f).1 = w)
      (hnew : ∀ e ∈ (slice map i j).2.1,
        AttributesDeclared (convertEntry o r (cpuArchAttributesOf o r) r.attributes
          e.toGcdFields).2) : MapDeclared map' := by
    refine rewriteRange_declared (keeps_stateless hu) hmap h ?_
    rw [List.forall_mem_map]
    exact fun e he => ⟨hold e he, hnew e he⟩
  cases o with
  | addMemory => exact hsta (fun _ _ => rfl) hkept
  | removeMemory =>
    refine hsta (fun _ _ => rfl) fun e he => ?_
    change Declared e.attributes 0
    rw [hkept e he]
    exact Declared.zero
  | setCapabilitiesMemory =>
    exact hsta (fun _ _ => rfl) fun e he => setCapabilities_check (hche e he)
  | setAttributesMemory =>
    by_cases hcpu : cpuArchAttributesOf .setAttributesMemory r = 0
    · rw [hcpu] at h
      refine rewriteRange_declared (keeps_carry r) hmap h ⟨?_, ?_⟩
      · rw [List.forall_mem_map]
        exact fun e he => ⟨hold e he, setAttributes_check (hche e he)⟩
      · exact List.pairwise_map.mpr (hkept hcpu)
    · refine hsta (fun w f => by simp only [convertEntry, hcpu, if_false]) fun e he => ?_
      simp only [convertEntry, hcpu, if_false]
      exact setAttributes_check (hche e he)
  | allocateMemory | freeMemory | addIo | allocateIo | freeIo | removeIo =>
    exact hsta (fun _ _ => rfl) hold

lemma coreConvertMap_declared {status : EfiStatus} (hmap : MapDeclared map)
    (hkept : (∀ e ∈ coveredEntries r.baseAddress r.length map,
        ¬ (convertCheckEntry o r e).isError) →
      AttributesKept o r (coveredEntries r.baseAddress r.length map))
    (h : coreConvertMap env o r map = .ok (status, map')) : MapDeclared map' := by
  rcases coreConvertMap_cases h with ⟨-, rfl⟩ | ⟨-, i, k, hs, hche, hrw⟩
  · exact hmap
  · have hcov : coveredEntries r.baseAddress r.length map = (slice map i k).2.1 := by
      simp only [coveredEntries, hs]
    rw [hcov] at hkept
    have hchec := checkEntries_ok hche
    grind [convertEntry_declared]

lemma coreAllocateMap_declared {q : AllocateRequest} {result : AllocateResult}
    (hmap : MapDeclared map) (h : coreAllocateMap env o q map = .ok result) :
    MapDeclared result.map := by
  rcases coreAllocateMap_cases h with ⟨-, heq⟩ | ⟨-, b, i, k, hrw⟩
  · exact heq ▸ hmap
  · refine rewriteRange_declared (keeps_stateless fun _ _ => rfl) hmap hrw ?_
    rw [List.forall_mem_map]
    exact fun e he => ⟨hmap e (mem_slice he), hmap e (mem_slice he)⟩

/-! ### Runs -/

/-- The calls that change the memory space map: the services of the DXE services table, and
the promotion of untested memory by the page allocator. `CoreAddMemorySpace` is an `add` followed
by an `allocate` of its pages, with promotions in between. -/
inductive MemorySpaceCall
  | add (gcdMemoryType : GcdMemoryType) (baseAddress length : ℕ) (capabilities : BitVec 64)
  | remove (baseAddress length : ℕ)
  | free (baseAddress length : ℕ)
  | allocate (r : AllocateRequest)
  | setAttributes (baseAddress length : ℕ) (attributes : BitVec 64)
  | setCapabilities (baseAddress length : ℕ) (capabilities : BitVec 64)
  | promote (gDxeCoreImageHandle : Handle)

def MemorySpaceCall.run (env : Environment) (s : GcdState) :
    MemorySpaceCall → Except Halt (EfiStatus × GcdState)
  | add gcdMemoryType b n capabilities =>
    coreInternalAddMemorySpace env gcdMemoryType b n capabilities s
  | remove b n => coreRemoveMemorySpace env b n s
  | free b n => coreFreeMemorySpace env b n s
  | allocate r =>
    (coreAllocateMemorySpace env r s).bind fun (status, _, s') => .ok (status, s')
  | setAttributes b n attributes => coreSetMemorySpaceAttributes env b n attributes s
  | setCapabilities b n capabilities => coreSetMemorySpaceCapabilities env b n capabilities s
  | promote image =>
    .ok (.success,
      { s with
        mGcdMemorySpaceMap := s.mGcdMemorySpaceMap.map fun entry =>
          if promotable entry then promoteEntry image entry else entry })

/-- The condition of a call on the entries that its range covers, in case they pass the checks
of the operation. -/
def KeepsAttributes (map : List GcdMapEntry) (operation : GcdOperation) (r : ConvertRequest) :
    Prop :=
  (∀ e ∈ coveredEntries r.baseAddress r.length map, ¬ (convertCheckEntry operation r e).isError) →
    AttributesKept operation r (coveredEntries r.baseAddress r.length map)

instance (map : List GcdMapEntry) (operation : GcdOperation) (r : ConvertRequest) :
    Decidable (KeepsAttributes map operation r) := inferInstanceAs (Decidable (_ → _))

/-- Removing, adding and setting attributes are the calls that have a condition to meet. -/
def MemorySpaceCall.Keeps (map : List GcdMapEntry) : MemorySpaceCall → Prop
  | add gcdMemoryType b n capabilities =>
    KeepsAttributes map .addMemory
      { gcdMemoryType := gcdMemoryType, baseAddress := b, length := n
        capabilities := capabilities }
  | remove b n => KeepsAttributes map .removeMemory { baseAddress := b, length := n }
  | setAttributes b n attributes =>
    KeepsAttributes map .setAttributesMemory
      { baseAddress := b, length := n, attributes := attributes }
  | _ => True

/-- The states of the runs all of whose calls meet a condition on the map they find. -/
inductive MemoryReachable (P : List GcdMapEntry → MemorySpaceCall → Prop)
    (sizeOfMemorySpace sizeOfIoSpace : ℕ) : GcdState → Prop
  | init {s : GcdState} : coreInitializeGcdServices sizeOfMemorySpace sizeOfIoSpace = .ok s →
      MemoryReachable P sizeOfMemorySpace sizeOfIoSpace s
  | step {s s' : GcdState} {env : Environment} {call : MemorySpaceCall} {status : EfiStatus} :
      MemoryReachable P sizeOfMemorySpace sizeOfIoSpace s → P s.mGcdMemorySpaceMap call →
      call.run env s = .ok (status, s') → MemoryReachable P sizeOfMemorySpace sizeOfIoSpace s'

variable {s s' : GcdState} {m j : ℕ}

lemma convert_declared {status : EfiStatus} (ho : o.onMemory = true)
    (hmap : MapDeclared s.mGcdMemorySpaceMap) (hkept : KeepsAttributes s.mGcdMemorySpaceMap o r)
    (h : coreConvertSpace env o r s = .ok (status, s')) : MapDeclared s'.mGcdMemorySpaceMap := by
  simp only [coreConvertSpace, GcdState.map, GcdState.setMap, ho, if_true] at h
  cases hc : coreConvertMap env o r s.mGcdMemorySpaceMap with
  | error _ =>
    rw [hc] at h
    cases h
  | ok result =>
    rw [hc] at h
    cases h
    exact coreConvertMap_declared hmap hkept hc

lemma run_declared {call : MemorySpaceCall} {status : EfiStatus}
    (hmap : MapDeclared s.mGcdMemorySpaceMap) (hkept : call.Keeps s.mGcdMemorySpaceMap)
    (h : call.run env s = .ok (status, s')) : MapDeclared s'.mGcdMemorySpaceMap := by
  cases call with
  | add gcdMemoryType b n capabilities =>
    simp only [MemorySpaceCall.run, coreInternalAddMemorySpace] at h
    split_ifs at h
    · cases h
      exact hmap
    · exact convert_declared rfl hmap hkept h
  | remove b n => exact convert_declared rfl hmap hkept h
  | free b n => exact convert_declared rfl hmap (by exact fun _ => trivial) h
  | setAttributes b n attributes => exact convert_declared rfl hmap hkept h
  | setCapabilities b n capabilities => exact convert_declared rfl hmap (by exact fun _ => trivial) h
  | allocate q =>
    simp only [MemorySpaceCall.run, coreAllocateMemorySpace, coreAllocateSpace, GcdState.map,
      GcdState.setMap, GcdOperation.onMemory, if_true] at h
    cases hc : coreAllocateMap env .allocateMemory { q with gcdIoType := .nonExistent }
      s.mGcdMemorySpaceMap with
    | error _ =>
      rw [hc] at h
      cases h
    | ok result =>
      rw [hc] at h
      cases h
      exact coreAllocateMap_declared hmap hc
  | promote image =>
    cases h
    intro e he
    obtain ⟨f, hf, rfl⟩ := List.mem_map.mp he
    split_ifs
    · exact (hmap f hf).mono
    · exact hmap f hf

/-- In every state of a run all of whose calls meet their condition, every entry of the memory
space map declares the attributes it carries. -/
theorem attributes_declared_of_keeps (h : MemoryReachable (fun map call => call.Keeps map) m j s) :
    ∀ e ∈ s.mGcdMemorySpaceMap, e.attributes &&& e.capabilities = e.attributes := by
  suffices hmap : MapDeclared s.mGcdMemorySpaceMap from hmap
  induction h with
  | init hinit =>
    unfold coreInitializeGcdServices at hinit
    split_ifs at hinit
    cases hinit
    intro e he
    rw [List.mem_singleton.mp he]
    exact Declared.zero
  | step _ hkept hrun ih => exact run_declared ih hkept hrun

/-- Calls made one after the other in an environment that grants everything. -/
def runCalls (s : GcdState) : List MemorySpaceCall → Except Halt GcdState
  | [] => .ok s
  | call :: calls => (call.run {} s).bind fun (_, s') => runCalls s' calls

lemma reachable_runCalls {P : List GcdMapEntry → MemorySpaceCall → Prop}
    {calls : List MemorySpaceCall} (hP : ∀ map, ∀ call ∈ calls, P map call)
    (hs : MemoryReachable P m j s) (h : runCalls s calls = .ok s') : MemoryReachable P m j s' := by
  induction calls generalizing s with
  | nil =>
    cases h
    exact hs
  | cons call calls ih =>
    simp only [runCalls] at h
    rcases hc : call.run {} s with _ | ⟨status, s₁⟩
    · rw [hc] at h
      cases h
    · rw [hc] at h
      exact ih (fun map c hc => hP map c (List.mem_cons_of_mem _ hc))
        (hs.step (hP _ call List.mem_cons_self) hc) h

/-- The map after two neighbouring ranges, one uncacheable and one cacheable, have been made
runtime ranges by one call: the second carries `EFI_MEMORY_UC`, which it does not declare. -/
def carriedMap : List GcdMapEntry :=
  [ { initialEntry 48 with endAddress := 0xFFF },
    { initialEntry 48 with
      baseAddress := 0x1000, endAddress := 0x1FFF, gcdMemoryType := .memoryMappedIo
      capabilities := efiMemoryUc ||| efiMemoryRuntime ||| efiMemoryPortIo
      attributes := efiMemoryUc ||| efiMemoryRuntime },
    { initialEntry 48 with
      baseAddress := 0x2000, endAddress := 0x2FFF, gcdMemoryType := .memoryMappedIo
      capabilities := efiMemoryWb ||| efiMemoryRuntime ||| efiMemoryPortIo
      attributes := efiMemoryUc ||| efiMemoryRuntime },
    { initialEntry 48 with baseAddress := 0x3000 } ]

theorem attributes_not_declared :
    ∃ s, MemoryReachable (fun _ _ => True) 48 16 s ∧
      ∃ e ∈ s.mGcdMemorySpaceMap, e.attributes &&& e.capabilities ≠ e.attributes := by
  have hinit : MemoryReachable (fun _ _ => True) 48 16
      { mGcdMemorySpaceMap := [initialEntry 48], mGcdIoSpaceMap := [initialEntry 16] } :=
    .init rfl
  have hrun : runCalls
      { mGcdMemorySpaceMap := [initialEntry 48], mGcdIoSpaceMap := [initialEntry 16] }
      [ .add .memoryMappedIo 0x1000 0x1000 efiMemoryUc,
        .add .memoryMappedIo 0x2000 0x1000 efiMemoryWb,
        .setAttributes 0x1000 0x1000 efiMemoryUc,
        .setAttributes 0x1000 0x2000 efiMemoryRuntime ] =
        .ok { mGcdMemorySpaceMap := carriedMap, mGcdIoSpaceMap := [initialEntry 16] } := by
    decide
  exact ⟨_, reachable_runCalls (fun _ _ _ => trivial) hinit hrun, by decide⟩

/-- The map after one uncacheable range has been added and its attribute set. -/
def uncacheableMap (attributes : BitVec 64) : List GcdMapEntry :=
  [ { initialEntry 48 with endAddress := 0xFFF },
    { initialEntry 48 with
      baseAddress := 0x1000, endAddress := 0x1FFF, gcdMemoryType := .memoryMappedIo
      capabilities := efiMemoryUc ||| efiMemoryRuntime ||| efiMemoryPortIo
      attributes := attributes },
    { initialEntry 48 with baseAddress := 0x2000 } ]

theorem attributes_declared_uncacheable :
    (∃ e ∈ uncacheableMap efiMemoryUc, e.attributes = efiMemoryUc) ∧
      ∀ e ∈ uncacheableMap efiMemoryUc, e.attributes &&& e.capabilities = e.attributes := by
  have hinit : MemoryReachable (fun map call => call.Keeps map) 48 16
      { mGcdMemorySpaceMap := [initialEntry 48], mGcdIoSpaceMap := [initialEntry 16] } :=
    .init rfl
  have hrun₁ : (MemorySpaceCall.add .memoryMappedIo 0x1000 0x1000 efiMemoryUc).run {}
      { mGcdMemorySpaceMap := [initialEntry 48], mGcdIoSpaceMap := [initialEntry 16] } =
        .ok (.success,
          { mGcdMemorySpaceMap := uncacheableMap 0, mGcdIoSpaceMap := [initialEntry 16] }) := by
    decide
  have hrun₂ : (MemorySpaceCall.setAttributes 0x1000 0x1000 efiMemoryUc).run {}
      { mGcdMemorySpaceMap := uncacheableMap 0, mGcdIoSpaceMap := [initialEntry 16] } =
        .ok (.success,
          { mGcdMemorySpaceMap := uncacheableMap efiMemoryUc
            mGcdIoSpaceMap := [initialEntry 16] }) := by
    decide
  have hkeep₁ : KeepsAttributes [initialEntry 48] .addMemory
      { gcdMemoryType := .memoryMappedIo, baseAddress := 0x1000, length := 0x1000
        capabilities := efiMemoryUc } := by
    decide
  have hkeep₂ : KeepsAttributes (uncacheableMap 0) .setAttributesMemory
      { baseAddress := 0x1000, length := 0x1000, attributes := efiMemoryUc } := by
    decide
  have hadd := hinit.step (by exact hkeep₁) hrun₁
  exact ⟨by decide, attributes_declared_of_keeps (hadd.step (by exact hkeep₂) hrun₂)⟩

end Edk2.Gcd
