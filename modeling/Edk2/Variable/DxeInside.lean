import Mathlib.Algebra.Order.BigOperators.Group.List
import Edk2.Variable.DxeReclaim

/-!
# Stores whose walks stay inside

A reclaim needs a buffer that has room for what it keeps: what is copied lies in the store, and the
parts of the store that are copied do not overlap.
-/

namespace Edk2.VariableDxe

open Variable Bytes Halting

variable {g : Global} {services : Services} {s b cache : Region} {r : Request} {authFlag : Bool}
  {p q ptr last stop : ℕ} {l : List ℕ} {pass : Pass} {vars : List StoredVariable}

lemma Region.HoldsHeader.le (h : s.HoldsHeader authFlag p) : p ≤ s.limit := by
  have hread := headerRead_ge authFlag (headerAt s.bytes p)
  have hle := h.2
  unfold limit
  omega

lemma heldSum_le (h : Trace s.bytes authFlag stop ptr l last)
    (hhea : ∀ p ∈ l, s.HoldsHeader authFlag p) {test : ℕ → Bool}
    (htest : ∀ p ∈ l, test p = true → isLive (headerAt s.bytes p) = true) (hbase : s.base ≤ ptr)
    (hle : ptr ≤ s.limit) : ptr + ((l.filter test).map (heldSize s authFlag)).sum ≤ s.limit := by
  induction h with
  | done => simpa using hle
  | @next ptr last l hval hrest ih =>
    obtain ⟨hhere, hthe⟩ := List.forall_mem_cons.mp hhea
    obtain ⟨hlive, hliv⟩ := List.forall_mem_cons.mp htest
    have hnext := lt_nextAt s.bytes authFlag ptr
    -- behind a variable that goes on outside there is no other one
    have hover : s.limit < nextAt s.bytes authFlag ptr → l = [] := by
      intro hlt
      apply List.eq_nil_iff_forall_not_mem.mpr
      intro q hq
      have hq' := (hthe q hq).le
      have hqle := (hrest.bounds.2 q hq).1
      omega
    by_cases hout : s.limit < nextAt s.bytes authFlag ptr
    · rw [hover hout]
      by_cases ht : test ptr = true
      · have hnot : ¬ s.Holds ptr (sizeAt s authFlag ptr) := by
          unfold Region.Holds sizeAt
          unfold Region.limit at hout
          omega
        have hread : headerRead authFlag (headerAt s.bytes ptr) = sizesOffset authFlag + 8 :=
          headerRead_of_live (hlive ht)
        have hin := hhere.2
        rw [hread] at hin
        have hsiz : 8 ≤ sizesOffset authFlag := by cases authFlag <;> decide
        rw [List.filter_cons_of_pos ht]
        simp only [List.filter_nil, List.map_cons, List.map_nil, List.sum_cons, List.sum_nil,
          heldSize, if_neg hnot]
        unfold Region.limit
        omega
      · rw [List.filter_cons_of_neg ht]
        simpa using hle
    · grind [List.filter_cons_of_pos, heldSize_of_holds,
        List.filter_cons_of_neg, Region.Holds, sizeAt, Region.limit]

lemma sum_filter_add {f : ℕ → ℕ} {test₁ test₂ test : ℕ → Bool}
    (hne : ∀ p ∈ l, test₁ p = true → test₂ p = false)
    (htest : ∀ p ∈ l, test₁ p = true ∨ test₂ p = true → test p = true) :
    ((l.filter test₁).map f).sum + ((l.filter test₂).map f).sum ≤ ((l.filter test).map f).sum := by
  induction l with
  | nil => simp
  | cons p l ih =>
    obtain ⟨hp, hl⟩ := List.forall_mem_cons.mp hne
    obtain ⟨hp', hl'⟩ := List.forall_mem_cons.mp htest
    have hrest := ih hl hl'
    by_cases h₁ : test₁ p = true
    · grind
    · grind

/-- A store with a valid header, which lies in a region of the size given there. -/
structure HasHeader (s : Region) : Prop where
  status : getVariableStoreStatus s.bytes s.base = .efiValid
  size : word s.bytes (s.base + 16) 4 = s.size
  room : variableStoreHeaderSize ≤ s.size

/-- A reclaim as it is called: `AllocatePool` returns aligned memory of the size asked for, the cache
is as large as the store, the old copy of the variable to be updated is not an added one, and the new
variable has a header. -/
structure IsCall (g : Global) (services : Services) (s : Region) (r : Request) (cache : Region) :
    Prop where
  pool : ∀ n b, services.allocatePool n = some b → b.size = n ∧ b.base % 8 = 0
  aligned : cache.base % 4 = 0
  cacheSize : cache.size = s.size
  cacheHeader : word cache.bytes (cache.base + 16) 4 = s.size
  tracked : ∀ p, r.isUpdatingInDeleted p = true → state (headerAt s.bytes p) ≠ varAdded
  newSize : ∀ newVariable size, r.newVariable = some (newVariable, size) →
    getVariableHeaderSize g.authFormat ≤ size

/-- The size that the first loop and the second loop need at most. -/
def neededSize (g : Global) (s : Region) (r : Request) : ℕ :=
  variableStoreHeaderSize +
    (((s.visited g.authFormat).filter (r.keepsAdded s)).map (heldSize s g.authFormat)).sum +
    (((s.visited g.authFormat).filter (r.keepsInDeleted s)).map (heldSize s g.authFormat)).sum

/-- The size of the new variable. -/
def Request.newSize (r : Request) : ℕ :=
  match r.newVariable with
  | some (_, size) => size
  | none => 0

lemma keepsAdded_live (h : r.keepsAdded s p = true) : isLive (headerAt s.bytes p) = true := by
  have hsta : state (headerAt s.bytes p) = varAdded := by
    simpa using (Bool.and_eq_true_iff.mp h).2
  simp only [isLive, hsta, true_or, decide_true]

lemma keepsInDeleted_state (h : r.keepsInDeleted s p = true) :
    state (headerAt s.bytes p) = varInDeletedAdded := by
  simpa using (Bool.and_eq_true_iff.mp h).2

lemma keepsInDeleted_live (h : r.keepsInDeleted s p = true) :
    isLive (headerAt s.bytes p) = true := by
  simp only [isLive, keepsInDeleted_state h, or_true, decide_true]

lemma keepsAdded_state (h : r.keepsAdded s p = true) : state (headerAt s.bytes p) = varAdded := by
  simpa using (Bool.and_eq_true_iff.mp h).2

lemma not_keepsInDeleted (h : r.keepsAdded s p = true) : r.keepsInDeleted s p = false := by
  rw [Bool.eq_false_iff]
  intro hdel
  have hsta := keepsAdded_state h
  rw [keepsInDeleted_state hdel] at hsta
  cases hsta

/-- The variable at `p` is kept or may be kept. -/
def Request.keeps (r : Request) (s : Region) (p : ℕ) : Bool :=
  r.keepsAdded s p || r.keepsInDeleted s p

lemma keeps_live (h : r.keeps s p = true) : isLive (headerAt s.bytes p) = true := by
  rcases Bool.or_eq_true_iff.mp h with h | h
  · exact keepsAdded_live h
  · exact keepsInDeleted_live h

lemma neededSize_le_sum (f : ℕ → ℕ) :
    ((l.filter (r.keepsAdded s)).map f).sum + ((l.filter (r.keepsInDeleted s)).map f).sum ≤
      ((l.filter (r.keeps s)).map f).sum :=
  sum_filter_add (fun _ _ h => not_keepsInDeleted h) fun _ _ h => Bool.or_eq_true_iff.mpr h

lemma neededSize_le (hhdr : HasHeader s)
    (hwalk : ∀ p ∈ s.visited g.authFormat, s.HoldsHeader g.authFormat p) :
    neededSize g s r ≤ s.size := by
  have hsta := s.base_le_startPtr
  have hroom : 28 ≤ s.size := hhdr.room
  unfold neededSize variableStoreHeaderSize
  by_cases hle : s.startPtr ≤ s.limit
  · have hsum := @neededSize_le_sum s r (s.visited g.authFormat) (heldSize s g.authFormat)
    have hheld := heldSum_le (s.trace g.authFormat) hwalk
      (fun p _ (h : r.keeps s p = true) => keeps_live h) (by omega) hle
    unfold Region.limit at hheld
    omega
  · have hnil : s.visited g.authFormat = [] := by
      apply List.eq_nil_iff_forall_not_mem.mpr
      intro q hq
      have hin := (hwalk q hq).le
      have hfrom := ((s.trace g.authFormat).bounds.2 q hq).1
      omega
    rw [hnil]
    exact hroom

/-! ### The buffer -/

/-- The variables that the size of an allocated buffer counts. -/
def Request.counts (r : Request) (s : Region) (p : ℕ) : Bool :=
  isLive (headerAt s.bytes p) && !r.isUpdating p && !r.isUpdatingInDeleted p

lemma maximumBufferSize_spec
    (hwalk : s.HoldsWalk g.authFormat s.endPtr (s.visited g.authFormat) (s.walkEnd g.authFormat)) :
    maximumBufferSize g s r = .ok (variableStoreHeaderSize +
      (((s.visited g.authFormat).filter (r.counts s)).map (sizeAt s g.authFormat)).sum +
        r.newSize + 1) := by
  have hfold : ∀ (l : List ℕ) (acc : ℕ), l.foldlM (fun acc p =>
      let header := headerAt s.bytes p
      if isLive header ∧ !r.isUpdating p ∧ !r.isUpdatingInDeleted p then
        (return acc + (nextAt s.bytes g.authFormat p - p) : Except Fault ℕ)
      else return acc) acc =
        .ok (acc + ((l.filter (r.counts s)).map (sizeAt s g.authFormat)).sum) := by
    intro l
    induction l with
    | nil => exact fun acc => rfl
    | cons p l ih =>
      intro acc
      rw [List.foldlM_cons]
      by_cases hcou : r.counts s p = true
      · have hcond : isLive (headerAt s.bytes p) = true ∧ (!r.isUpdating p) = true ∧
            (!r.isUpdatingInDeleted p) = true := by
          simpa [Request.counts, and_assoc] using hcou
        rw [List.filter_cons_of_pos hcou, List.map_cons, List.sum_cons, ← Nat.add_assoc]
        simp only [if_pos hcond]
        exact ih _
      · grind [Request.counts, List.filter_cons_of_neg]
  unfold maximumBufferSize
  rw [bind_eq_ok]
  refine ⟨_, forVariables_whole.mpr ⟨hwalk, rfl, hfold _ _⟩, ?_⟩
  unfold Request.newSize
  cases r.newVariable with
  | none => rfl
  | some new => rfl

/-- The buffer before the header of the store is copied to it, unless there is no memory. -/
structure IsBuffer (g : Global) (s : Region) (r : Request) (b : Region) : Prop where
  aligned : b.base % 4 = 0
  erased : ∀ a, b.base ≤ a → a < b.limit → b.bytes a = 0xff
  needed : neededSize g s r ≤ b.size
  room : variableStoreHeaderSize ≤ b.size
  new : b.size = s.size ∨ neededSize g s r + r.newSize ≤ b.size
  cache : r.inPool = false → b.size = s.size

lemma neededSize_le_counted (hcall : IsCall g services s r cache) : neededSize g s r ≤
    variableStoreHeaderSize +
      (((s.visited g.authFormat).filter (r.counts s)).map (sizeAt s g.authFormat)).sum := by
  have hle : ∀ p, heldSize s g.authFormat p ≤ sizeAt s g.authFormat p := by
    intro p
    have hge := sizeAt_ge s g.authFormat p
    have h32 := headerSize_ge g.authFormat
    unfold heldSize
    split_ifs <;> omega
  have hsum := @sum_filter_add (s.visited g.authFormat) (heldSize s g.authFormat)
    (r.keepsAdded s) (r.keepsInDeleted s) (r.counts s) (fun _ _ h => not_keepsInDeleted h) (by
      intro p _ h
      have hlive := keeps_live (r := r) (Bool.or_eq_true_iff.mpr h)
      rcases h with h | h
      · have hup := (Bool.and_eq_true_iff.mp h).1
        have hold : r.isUpdatingInDeleted p = false := by
          rw [Bool.eq_false_iff]
          exact fun hold => hcall.tracked p hold (keepsAdded_state h)
        rw [Request.counts, hlive, hup, hold]
        rfl
      · have hboth := (Bool.and_eq_true_iff.mp h).1
        rw [Request.counts, hlive, Bool.true_and]
        exact hboth)
  have hmono : ∀ l : List ℕ, (l.map (heldSize s g.authFormat)).sum ≤
      (l.map (sizeAt s g.authFormat)).sum := by
    intro l
    exact List.sum_le_sum fun p _ => hle p
  have hcou := hmono ((s.visited g.authFormat).filter (r.counts s))
  unfold neededSize
  omega

lemma bytes_of_replicate {d : Bytes} {n a : ℕ} (hle : p ≤ a) (hlt : a < p + n) :
    writeBytes d p (List.replicate n 0xff) a = 0xff := by
  apply writeBytes_of_getElem? hle
  rw [List.getElem?_replicate, if_pos (by omega)]

lemma validBuffer_spec (hhdr : HasHeader s) (hcall : IsCall g services s r cache)
    (hwalk : s.HoldsWalk g.authFormat s.endPtr (s.visited g.authFormat) (s.walkEnd g.authFormat)) :
    r.inPool = true ∧ validBuffer g services s r cache = .ok none ∨
      ∃ b, validBuffer g services s r cache = .ok (some b) ∧ IsBuffer g s r b := by
  have hnee := @neededSize_le g s r hhdr hwalk.headers
  have hcou := neededSize_le_counted hcall
  have hroom : 28 ≤ s.size := hhdr.room
  unfold validBuffer
  by_cases hpool : r.inPool = true
  · rw [if_pos hpool, maximumBufferSize_spec hwalk]
    simp only [ok_bind]
    cases hall : services.allocatePool _ with
    | none => exact .inl ⟨hpool, rfl⟩
    | some b =>
      right
      obtain ⟨hsize, hbase⟩ := hcall.pool _ _ hall
      simp only []
      rw [write_of_holds (by rw [List.length_replicate, ← hsize]; exact ⟨le_rfl, le_rfl⟩)]
      refine ⟨_, rfl, ?_⟩
      constructor
      · change b.base % 4 = 0
        omega
      · intro a hle hlt
        refine bytes_of_replicate hle ?_
        rw [← hsize]
        exact hlt
      · change _ ≤ b.size
        omega
      · change _ ≤ b.size
        omega
      · right
        change _ ≤ b.size
        omega
      · intro h
        rw [hpool] at h
        cases h
  · rw [if_neg hpool, touch_of_holds (by
      unfold Region.Holds
      rw [hcall.cacheSize]
      omega)]
    simp only [ok_bind]
    right
    rw [hcall.cacheHeader, write_of_holds (by
      rw [List.length_replicate, ← hcall.cacheSize]
      exact ⟨le_rfl, le_rfl⟩)]
    refine ⟨_, rfl, ?_⟩
    constructor
    · exact hcall.aligned
    · intro a hle hlt
      refine bytes_of_replicate hle ?_
      rw [← hcall.cacheSize]
      exact hlt
    · exact le_trans hnee (le_of_eq hcall.cacheSize.symm)
    · exact le_trans hroom (le_of_eq hcall.cacheSize.symm)
    · exact .inl hcall.cacheSize
    · exact fun _ => hcall.cacheSize

/-- The pass with the header of the store in the buffer. -/
def startPass (s b : Region) : Pass :=
  ⟨{ b with bytes := writeBytes b.bytes b.base (readBytes s.bytes s.base variableStoreHeaderSize) },
    b.startPtr, ⟨0, 0, 0⟩⟩

lemma IsBuffer.built (h : IsBuffer g s r b) :
    Built s authFlag b.base b.size (startPass s b) [] := by
  have hsta : b.startPtr = b.base + 28 := by
    have hali := h.aligned
    unfold Region.startPtr getStartPointer headerAlign variableStoreHeaderSize
    omega
  refine ⟨rfl, rfl, h.aligned, ?_, hsta.symm, b.startPtr_mod, ?_⟩
  · intro i hi
    apply writeBytes_of_getElem? (Nat.le_add_right _ _)
    rw [Nat.add_sub_cancel_left]
    exact readBytes_getElem? hi
  · intro a hle hlt
    have hle : b.startPtr ≤ a := hle
    refine (writeBytes_of_ge ?_).trans (h.erased a (by omega) hlt)
    rw [length_readBytes]
    unfold variableStoreHeaderSize
    omega

/-! ### Both loops -/

/-- The variables that the first loop copies. -/
def addedOf (g : Global) (s : Region) (r : Request) : List ℕ :=
  (s.visited g.authFormat).filter (r.keepsAdded s)

/-- The variables that the second loop copies. -/
def promotedOf (g : Global) (s : Region) (r : Request) : List ℕ :=
  promotedFrom g.authFormat s r
    ((addedOf g s r).map fun p => asAdded (variableAt s.bytes g.authFormat p))
    (s.visited g.authFormat)

/-- What the two loops read lies in the region. -/
structure HoldsKept (g : Global) (s : Region) (r : Request) : Prop where
  added : ∀ p ∈ addedOf g s r, s.Holds p (sizeAt s g.authFormat p)
  named : ∀ p ∈ s.visited g.authFormat, r.keepsInDeleted s p = true → s.HoldsName g.authFormat p
  promoted : ∀ p ∈ promotedOf g s r, s.Holds p (sizeAt s g.authFormat p)

/-- The pass after both loops. -/
def loopsPass (g : Global) (services : Services) (s : Region) (r : Request) (b : Region) : Pass :=
  (promotedOf g s r).foldl (promote g services s r)
    ((addedOf g s r).foldl (keep g services s r) (startPass s b))

lemma foldl_currPtr {step : Pass → ℕ → Pass}
    (hstep : ∀ pass p, (step pass p).currPtr = pass.currPtr + sizeAt s g.authFormat p) :
    (l.foldl step pass).currPtr = pass.currPtr + (l.map (sizeAt s g.authFormat)).sum := by
  induction l generalizing pass with
  | nil => rfl
  | cons p l ih =>
    rw [List.foldl_cons, ih, hstep, List.map_cons, List.sum_cons, Nat.add_assoc]

lemma visited_valid (hp : p ∈ s.visited authFlag) :
    isValidVariableHeader (headerAt s.bytes p) = true ∧ p % 4 = 0 ∧ s.base ≤ p := by
  obtain ⟨hle, -, hval⟩ := (s.trace authFlag).bounds.2 p hp
  have hsta := s.base_le_startPtr
  refine ⟨(isValidAt_iff.mp hval).2.2, ?_, by omega⟩
  have hali : ∀ {ptr last : ℕ} {l : List ℕ}, Trace s.bytes authFlag s.endPtr ptr l last →
      ptr % 4 = 0 → ∀ q ∈ l, q % 4 = 0 := by
    intro ptr last l h
    induction h with
    | done => simp
    | next _ _ ih =>
      intro hmod
      exact List.forall_mem_cons.mpr ⟨hmod, ih (headerAlign_mod _)⟩
  exact hali (s.trace authFlag) s.startPtr_mod p hp

lemma built_added (hb : IsBuffer g s r b) : Built s g.authFormat b.base b.size
    ((addedOf g s r).foldl (keep g services s r) (startPass s b))
    ((addedOf g s r).map fun p => asAdded (variableAt s.bytes g.authFormat p)) := by
  refine hb.built.foldl fun pass vars p hp hbuilt => ?_
  obtain ⟨hp, hkeep⟩ := List.mem_filter.mp hp
  obtain ⟨hval, hmod, -⟩ := visited_valid hp
  exact hbuilt.keep hmod hval (keepsAdded_state hkeep)

lemma mem_promotedFrom_keeps (h : p ∈ promotedFrom authFlag s r vars l) :
    p ∈ l ∧ r.keepsInDeleted s p = true := by
  induction l generalizing vars with
  | nil => cases h
  | cons q l ih =>
    grind [promotedFrom]

lemma built_loops (hb : IsBuffer g s r b) :
    Built s g.authFormat b.base b.size (loopsPass g services s r b)
      ((addedOf g s r ++ promotedOf g s r).map fun p =>
        asAdded (variableAt s.bytes g.authFormat p)) := by
  rw [List.map_append]
  refine (built_added hb).foldl fun pass vars p hp hbuilt => ?_
  obtain ⟨hp, hkeep⟩ := mem_promotedFrom_keeps hp
  obtain ⟨hval, hmod, -⟩ := visited_valid hp
  exact hbuilt.promote hmod hval (keepsInDeleted_state hkeep)

lemma loops_eq_ok (hhdr : HasHeader s) (hb : IsBuffer g s r b)
    (hwalk : s.HoldsWalk g.authFormat s.endPtr (s.visited g.authFormat) (s.walkEnd g.authFormat))
    {pass₁ pass₂ : Pass} {e₁ e₂ : ℕ} :
    forVariables g.authFormat s s.endPtr (reinstallAdded g services s r)
          (s.endPtr - s.startPtr + 1) s.startPtr (startPass s b) = .ok (e₁, pass₁) ∧
        forVariables g.authFormat s s.endPtr (reinstallInDeleted g services s r)
          (s.endPtr - s.startPtr + 1) s.startPtr pass₁ = .ok (e₂, pass₂) ↔
      HoldsKept g s r ∧ e₁ = s.walkEnd g.authFormat ∧ e₂ = s.walkEnd g.authFormat ∧
        pass₁ = (addedOf g s r).foldl (keep g services s r) (startPass s b) ∧
          pass₂ = loopsPass g services s r b := by
  have hsta : (startPass s b).currPtr = b.base + 28 := by
    have hali := hb.aligned
    change headerAlign (b.base + 28) = b.base + 28
    unfold headerAlign
    omega
  have hnee := hb.needed
  have hfits := @neededSize_le g s r hhdr hwalk.headers
  unfold neededSize variableStoreHeaderSize at hnee hfits
  have hfst := fun pass' => @foldlM_reinstallAdded g services s r (s.visited g.authFormat)
    (startPass s b) pass' (by rw [hsta]; exact Nat.le_add_right _ _) (by
      rw [hsta]
      change _ ≤ b.base + b.size
      omega)
  have hcurr : (∀ p ∈ addedOf g s r, s.Holds p (sizeAt s g.authFormat p)) →
      ((addedOf g s r).foldl (keep g services s r) (startPass s b)).currPtr =
        b.base + 28 + ((addedOf g s r).map (heldSize s g.authFormat)).sum := by
    intro hadd
    rw [foldl_currPtr fun _ _ => keep_currPtr, hsta,
      List.map_congr_left fun p hp => (heldSize_of_holds (hadd p hp)).symm]
  have hsec : (∀ p ∈ addedOf g s r, s.Holds p (sizeAt s g.authFormat p)) → ∀ pass', _ :=
    fun hadd pass' =>
      @foldlM_reinstallInDeleted g services s r b.base b.size (s.visited g.authFormat)
        ((addedOf g s r).foldl (keep g services s r) (startPass s b)) pass' _ (built_added hb)
        (fun p hp => visited_valid hp)
        (by rw [hcurr hadd]; unfold addedOf; omega)
        (by rw [hcurr hadd, hhdr.size]; unfold addedOf; omega)
  rw [forVariables_whole, forVariables_whole]
  constructor
  · rintro ⟨⟨-, he₁, h₁⟩, -, he₂, h₂⟩
    obtain ⟨hadd, rfl⟩ := (hfst pass₁).mp h₁
    have hadd : ∀ p ∈ addedOf g s r, s.Holds p (sizeAt s g.authFormat p) := by
      intro p hp
      obtain ⟨hp, hkeep⟩ := List.mem_filter.mp hp
      exact hadd p hp hkeep
    obtain ⟨hnam, hpro, heq⟩ := (hsec hadd pass₂).mp h₂
    exact ⟨⟨hadd, hnam, hpro⟩, he₁, he₂, rfl, heq⟩
  · rintro ⟨⟨hadd, hnam, hpro⟩, he₁, he₂, rfl, heq⟩
    refine ⟨⟨hwalk, he₁, (hfst _).mpr ⟨?_, rfl⟩⟩, hwalk, he₂, ?_⟩
    · exact fun p hp hkeep => hadd p (List.mem_filter.mpr ⟨hp, hkeep⟩)
    · exact (hsec hadd pass₂).mpr ⟨hnam, hpro, heq⟩

lemma promotedFrom_sublist : (promotedFrom authFlag s r vars l).Sublist
    (l.filter (r.keepsInDeleted s)) := by
  induction l generalizing vars with
  | nil => exact List.Sublist.refl _
  | cons p l ih =>
    grind [List.filter_cons_of_pos, List.filter_cons_of_neg, promotedFrom]

lemma loopsPass_currPtr (hb : IsBuffer g s r b) (hkept : HoldsKept g s r) :
    b.base + 28 ≤ (loopsPass g services s r b).currPtr ∧
      (loopsPass g services s r b).currPtr ≤ b.base + neededSize g s r := by
  have hsta : (startPass s b).currPtr = b.base + 28 := by
    have hali := hb.aligned
    change headerAlign (b.base + 28) = b.base + 28
    unfold headerAlign
    omega
  have hsub : ((promotedOf g s r).map (heldSize s g.authFormat)).sum ≤
      (((s.visited g.authFormat).filter (r.keepsInDeleted s)).map (heldSize s g.authFormat)).sum :=
    List.Sublist.sum_le_sum (promotedFrom_sublist.map _) fun _ _ => Nat.zero_le _
  unfold loopsPass
  rw [foldl_currPtr fun _ _ => promote_currPtr, foldl_currPtr fun _ _ => keep_currPtr, hsta,
    List.map_congr_left fun p hp => (heldSize_of_holds (hkept.added p hp)).symm,
    List.map_congr_left fun p hp => (heldSize_of_holds (hkept.promoted p hp)).symm]
  unfold neededSize variableStoreHeaderSize
  unfold addedOf
  omega

/-! ### The end of a reclaim -/

/-- The pass ends within the buffer and within the size of the store. -/
structure Ended (s : Region) (b : Region) (pass : Pass) : Prop where
  base_eq : pass.buffer.base = b.base
  size_eq : pass.buffer.size = b.size
  le_buffer : pass.currPtr - b.base ≤ b.size
  le_store : pass.currPtr - b.base ≤ s.size

lemma putNew_spec {totals : Totals} {newVariable : Bytes} {size : ℕ}
    (hput : pass.buffer.Holds pass.currPtr size) (h3 : 3 ≤ size) :
    ∃ new, (do
        let buffer ← pass.buffer.write pass.currPtr (readBytes newVariable 0 size)
        let pass' ← Pass.setAdded ⟨buffer, pass.currPtr, totals⟩
        return some { pass' with currPtr := pass'.currPtr + size } : Except Fault (Option Pass)) =
          .ok (some new) ∧ new.buffer.base = pass.buffer.base ∧
        new.buffer.size = pass.buffer.size ∧ new.currPtr = pass.currPtr + size := by
  rw [write_of_holds (by rw [length_readBytes]; exact hput)]
  simp only [ok_bind]
  unfold Pass.setAdded
  rw [write_of_holds (by exact hput.mono (Nat.le_add_right _ _) (by
    rw [List.length_singleton]
    change pass.currPtr + 2 + 1 ≤ pass.currPtr + size
    omega))]
  exact ⟨_, rfl, rfl, rfl, rfl⟩

lemma installNew_spec (hhdr : HasHeader s) (hcall : IsCall g services s r cache)
    (hb : IsBuffer g s r b) (hfits : neededSize g s r ≤ s.size) (hbase : pass.buffer.base = b.base)
    (hsize : pass.buffer.size = b.size) (hlow : b.base ≤ pass.currPtr)
    (hle : pass.currPtr ≤ b.base + neededSize g s r) :
    ∃ o, installNew g services r (word s.bytes (s.base + 16) 4) pass = .ok o ∧
      ∀ new, o = some new → Ended s b new := by
  have hnee := hb.needed
  unfold installNew
  rw [hhdr.size]
  cases hnew : r.newVariable with
  | none =>
    refine ⟨_, rfl, ?_⟩
    intro new h
    cases h
    exact ⟨hbase, hsize, by omega, by omega⟩
  | some new =>
    obtain ⟨newVariable, size⟩ := new
    have h32 := hcall.newSize newVariable size hnew
    have hhea := headerSize_ge g.authFormat
    have hnewS : r.newSize = size := by
      unfold Request.newSize
      rw [hnew]
    have hroom := hb.new
    rw [hnewS] at hroom
    simp only []
    by_cases hspa : pass.currPtr - pass.buffer.base + size > s.size
    · rw [if_pos hspa]
      exact ⟨_, rfl, nofun⟩
    · rw [if_neg hspa]
      rw [hbase] at hspa
      generalize (if r.isVolatile = true then pass.totals
        else pass.totals.add (services.isUserVariable (variableAt newVariable g.authFormat 0))
          (attributes newVariable) size) = totals
      split_ifs with hlim
      · exact ⟨_, rfl, nofun⟩
      · have hput : pass.buffer.Holds pass.currPtr size := by
          unfold Region.Holds
          rw [hbase, hsize]
          omega
        obtain ⟨new, hput, hnewB, hnewS, hcurr⟩ :=
          @putNew_spec pass totals newVariable size hput (by omega)
        refine ⟨_, hput, ?_⟩
        intro new' h
        cases h
        exact ⟨hnewB.trans hbase, hnewS.trans hsize, by omega, by omega⟩

lemma totalsWalk_returns {count : ℕ → ℕ → Totals → Totals} : (∃ r, totalsWalk g s count = .ok r) ↔
    s.HoldsWalk g.authFormat s.endPtr (s.visited g.authFormat) (s.walkEnd g.authFormat) ∧
      ∀ p ∈ s.visited g.authFormat, s.Holds (p + 4) 4 := by
  have hfold : ∀ (l : List ℕ) (t : Totals), (∃ t', l.foldlM (fun t p => (do
      s.touch (p + 4) 4
      return count p (nextAt s.bytes g.authFormat p) t : Except Fault Totals)) t = .ok t') ↔
        ∀ p ∈ l, s.Holds (p + 4) 4 := by
    intro l
    induction l with
    | nil => exact fun t => ⟨fun _ => by simp, fun _ => ⟨t, rfl⟩⟩
    | cons p l ih =>
      intro t
      rw [List.forall_mem_cons]
      constructor
      · rintro ⟨t', h⟩
        obtain ⟨t₁, h₁, h⟩ := bind_eq_ok.mp h
        exact ⟨(touch_bind.mp h₁).1, (ih t₁).mp ⟨t', h⟩⟩
      · rintro ⟨h₁, h⟩
        obtain ⟨t', h⟩ := (ih (count p (nextAt s.bytes g.authFormat p) t)).mpr h
        exact ⟨t', bind_eq_ok.mpr ⟨_, touch_bind.mpr ⟨h₁, rfl⟩, h⟩⟩
  unfold totalsWalk
  constructor
  · rintro ⟨res, h⟩
    obtain ⟨⟨e, t⟩, hloop, -⟩ := bind_eq_ok.mp h
    obtain ⟨hwalk, -, hrun⟩ := forVariables_whole.mp hloop
    exact ⟨hwalk, (hfold _ _).mp ⟨t, hrun⟩⟩
  · rintro ⟨hwalk, hatt⟩
    obtain ⟨t, hrun⟩ := (hfold _ ⟨0, 0, 0⟩).mpr hatt
    exact ⟨_, bind_eq_ok.mpr ⟨_, forVariables_whole.mpr ⟨hwalk, rfl, hrun⟩, rfl⟩⟩

lemma replaceStore_returns (hhdr : HasHeader s) (hb : IsBuffer g s r b)
    (hwalk : s.HoldsWalk g.authFormat s.endPtr (s.visited g.authFormat) (s.walkEnd g.authFormat))
    (hatt : ∀ p ∈ s.visited g.authFormat, s.Holds (p + 4) 4) (hend : Ended s b pass)
    (updating : Option PtrTrack) :
    ∃ res, replaceStore g services s r cache pass updating = .ok res := by
  have hsto : s.Holds s.base s.size := ⟨le_rfl, le_rfl⟩
  have hbase := hend.base_eq
  have hsize := hend.size_eq
  have hle := hend.le_buffer
  have hle' := hend.le_store
  unfold replaceStore
  rw [hhdr.size]
  by_cases hpool : r.inPool = true
  · rw [if_pos hpool, write_of_holds (by rw [List.length_replicate]; exact hsto),
      touch_of_holds (by unfold Region.Holds; rw [hbase, hsize]; omega)]
    simp only [ok_bind]
    rw [write_of_holds (by
      rw [length_readBytes, hbase]
      exact ⟨le_rfl, Nat.add_le_add_left hle' _⟩)]
    exact ⟨_, rfl⟩
  · rw [if_neg hpool]
    have hcac : pass.buffer.Holds pass.buffer.base s.size := by
      have heq := hb.cache (by simpa using hpool)
      unfold Region.Holds
      omega
    by_cases hftw : services.ftwVariableSpace.isError = true
    · rw [if_pos hftw]
      obtain ⟨⟨offset, totals⟩, hcnt⟩ :=
        (@totalsWalk_returns g s (countVariable g services.isUserVariable s)).mpr ⟨hwalk, hatt⟩
      rw [hcnt]
      simp only [ok_bind, pure_bind]
      rw [touch_of_holds hsto]
      simp only [ok_bind]
      rw [write_of_holds (by rw [length_readBytes]; exact hcac)]
      exact ⟨_, rfl⟩
    · rw [if_neg hftw, touch_of_holds hcac]
      simp only [ok_bind]
      rw [write_of_holds (by rw [length_readBytes]; exact hsto)]
      simp only [ok_bind, pure_bind]
      rw [touch_of_holds (by exact hsto)]
      simp only [ok_bind]
      rw [write_of_holds (by rw [length_readBytes]; exact hcac)]
      exact ⟨_, rfl⟩

end Edk2.VariableDxe
