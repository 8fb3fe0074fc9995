import Edk2.Variable.DxeInside

/-!
# Which stores are walked and reclaimed safely

The walks stay inside a store with a valid header exactly if the headers on the walk and the names of
the live variables lie inside, and all of a variable that a reclaim can copy.
-/

namespace Edk2.VariableDxe

open Variable Bytes Halting

variable {g : Global} {services : Services} {s b cache : Region} {r : Request} {authFlag : Bool}
  {p q ptr last stop : ℕ} {l : List ℕ} {vars : List StoredVariable}

/-- `FindVariableEx`, the walk that initialises the totals, and `Reclaim` return, unless an `ASSERT`
stops the search, and access nothing outside of the store and of the buffer. -/
structure AccessesInside (g : Global) (s : Region) : Prop where
  find : ∀ q, findVariableEx g s q ≠ .error .outside ∧ findVariableEx g s q ≠ .error .running
  init : ∃ res, initNonVolatileVariableStore g s = .ok res
  reclaim : ∀ services r cache, IsCall g services s r cache →
    ∃ res, reclaim g services s r cache = .ok res

/-- The variables at `p` and `q` have the same name and GUID. -/
def sameAt (g : Global) (s : Region) (p q : ℕ) : Bool :=
  sameKey (variableAt s.bytes g.authFormat p) (variableAt s.bytes g.authFormat q)

/-- The variable at `p` is about to be deleted, and all copies that a reclaim can find in its place are
two that the caller updates: an added one, and of the others those in front. -/
def Exposed (g : Global) (s : Region) (p : ℕ) : Prop :=
  state (headerAt s.bytes p) = varInDeletedAdded ∧
    ∃ c d : Option ℕ, c ≠ some p ∧ d ≠ some p ∧
      (∀ q, d = some q → state (headerAt s.bytes q) ≠ varAdded) ∧
      ∀ q ∈ s.visited g.authFormat, sameAt g s q p = true →
        (state (headerAt s.bytes q) = varAdded → c = some q) ∧
          (state (headerAt s.bytes q) = varInDeletedAdded → q < p → c = some q ∨ d = some q)

/-- The store holds what is read of each header on the walk, and of where the walk ends, the names of
the variables that are about to be deleted, and all of the variables that can be copied. -/
structure Inside (g : Global) (s : Region) : Prop where
  headers : ∀ p ∈ s.visited g.authFormat, s.HoldsHeader g.authFormat p ∧ s.Holds (p + 4) 4
  last : s.walkEnd g.authFormat < s.endPtr → s.Holds (s.walkEnd g.authFormat) 2
  added : ∀ p ∈ s.visited g.authFormat, state (headerAt s.bytes p) = varAdded →
    s.Holds p (sizeAt s g.authFormat p)
  named : ∀ p ∈ s.visited g.authFormat, state (headerAt s.bytes p) = varInDeletedAdded →
    s.HoldsName g.authFormat p
  exposed : ∀ p ∈ s.visited g.authFormat, Exposed g s p → s.Holds p (sizeAt s g.authFormat p)

lemma sameKey_asAdded (v w : StoredVariable) : sameKey (asAdded v) w = sameKey v w := rfl

lemma sameKey_trans {u v w : StoredVariable} (h : sameKey u v = true) (h' : sameKey v w = true) :
    sameKey u w = true := by
  simp only [sameKey, Bool.and_eq_true, decide_eq_true_eq] at h h' ⊢
  exact ⟨h.1.trans h'.1, h.2.trans h'.2⟩

lemma Trace.pairwise {bytes : Bytes} (h : Trace bytes authFlag stop ptr l last) :
    l.Pairwise (· < ·) := by
  induction h with
  | done => exact List.Pairwise.nil
  | @next ptr _ _ _ hrest ih =>
    refine List.Pairwise.cons ?_ ih
    intro q hq
    have hnext := lt_nextAt bytes authFlag ptr
    have hle := (hrest.bounds.2 q hq).1
    omega

lemma mem_promotedFrom (hl : l.Pairwise (· < ·)) : p ∈ promotedFrom g.authFormat s r vars l ↔
    (p ∈ l ∧ r.keepsInDeleted s p = true) ∧
      (∀ v ∈ vars, sameKey v (variableAt s.bytes g.authFormat p) = false) ∧
        ∀ q ∈ l, q < p → r.keepsInDeleted s q = true → sameAt g s q p = false := by
  induction l generalizing vars with
  | nil =>
    constructor
    · exact fun h => by cases h
    · exact fun h => absurd h.1.1 (List.not_mem_nil)
  | cons q l ih =>
    obtain ⟨hfst, hl⟩ := List.pairwise_cons.mp hl
    unfold promotedFrom
    by_cases hcond : (r.keepsInDeleted s q && !vars.any
        (fun v => sameKey v (variableAt s.bytes g.authFormat q))) = true
    · rw [if_pos hcond, List.mem_cons, ih hl]
      obtain ⟨hkeep, hnone⟩ := Bool.and_eq_true_iff.mp hcond
      have hnone : ∀ v ∈ vars, sameKey v (variableAt s.bytes g.authFormat q) = false := by
        simpa using hnone
      constructor
      · rintro (rfl | ⟨⟨hp, hkp⟩, hvars, hfro⟩)
        · grind
        · refine ⟨⟨List.mem_cons_of_mem _ hp, hkp⟩, fun v hv => hvars v ?_, ?_⟩
          · exact List.mem_append_left _ hv
          · intro q' hq' hlt hkq
            rcases List.mem_cons.mp hq' with rfl | hq'
            · exact hvars (asAdded (variableAt s.bytes g.authFormat q'))
                (List.mem_append_right _ List.mem_cons_self)
            · exact hfro q' hq' hlt hkq
      · rintro ⟨⟨hp, hkp⟩, hvars, hfro⟩
        rcases List.mem_cons.mp hp with rfl | hp
        · exact .inl rfl
        · refine .inr ⟨⟨hp, hkp⟩, ?_, fun q' hq' => hfro q' (List.mem_cons_of_mem _ hq')⟩
          intro v hv
          rcases List.mem_append.mp hv with hv | hv
          · exact hvars v hv
          · cases List.mem_singleton.mp hv
            exact hfro q List.mem_cons_self (hfst p hp) hkeep
    · rw [if_neg hcond, ih hl]
      have hblo : r.keepsInDeleted s q = true →
          ∃ v ∈ vars, sameKey v (variableAt s.bytes g.authFormat q) = true := by
        intro hkeep
        simpa [hkeep] using hcond
      constructor
      · rintro ⟨⟨hp, hkp⟩, hvars, hfro⟩
        refine ⟨⟨List.mem_cons_of_mem _ hp, hkp⟩, hvars, ?_⟩
        intro q' hq' hlt hkq
        rcases List.mem_cons.mp hq' with rfl | hq'
        · obtain ⟨v, hv, hsame⟩ := hblo hkq
          rw [Bool.eq_false_iff]
          intro hqp
          have hkey := sameKey_trans hsame hqp
          rw [hvars v hv] at hkey
          cases hkey
        · exact hfro q' hq' hlt hkq
      · grind

lemma mem_promotedOf : p ∈ promotedOf g s r ↔
    (p ∈ s.visited g.authFormat ∧ r.keepsInDeleted s p = true) ∧
      ∀ q ∈ s.visited g.authFormat, sameAt g s q p = true → r.keepsAdded s q = false ∧
        (q < p → r.keepsInDeleted s q = false) := by
  unfold promotedOf addedOf
  rw [mem_promotedFrom (s.trace g.authFormat).pairwise]
  constructor
  · rintro ⟨hp, hvars, hfro⟩
    refine ⟨hp, fun q hq hsame => ⟨?_, fun hlt => ?_⟩⟩
    · rw [Bool.eq_false_iff]
      intro hkeep
      have hnot := hvars _ (List.mem_map_of_mem (List.mem_filter.mpr ⟨hq, hkeep⟩))
      rw [sameKey_asAdded] at hnot
      rw [sameAt, hnot] at hsame
      cases hsame
    · grind
  · rintro ⟨hp, hnone⟩
    refine ⟨hp, ?_, ?_⟩
    · intro v hv
      obtain ⟨q, hq, rfl⟩ := List.mem_map.mp hv
      obtain ⟨hq, hkeep⟩ := List.mem_filter.mp hq
      rw [sameKey_asAdded, Bool.eq_false_iff]
      intro hsame
      rw [(hnone q hq hsame).1] at hkeep
      cases hkeep
    · grind

lemma Inside.holdsKept (h : Inside g s) (hcall : IsCall g services s r cache) :
    HoldsKept g s r := by
  refine ⟨?_, ?_, ?_⟩
  · intro p hp
    obtain ⟨hp, hkeep⟩ := List.mem_filter.mp hp
    exact h.added p hp (keepsAdded_state hkeep)
  · exact fun p hp hkeep => h.named p hp (keepsInDeleted_state hkeep)
  · intro p hp
    obtain ⟨⟨hp, hkeep⟩, hnone⟩ := mem_promotedOf.mp hp
    refine h.exposed p hp ⟨keepsInDeleted_state hkeep, r.updating.bind (·.currPtr),
      r.updating.bind (·.inDeletedTransitionPtr), ?_, ?_, ?_, ?_⟩
    · have hboth := (Bool.and_eq_true_iff.mp (Bool.and_eq_true_iff.mp hkeep).1).1
      simpa [Request.isUpdating] using hboth
    · have hboth := (Bool.and_eq_true_iff.mp (Bool.and_eq_true_iff.mp hkeep).1).2
      simpa [Request.isUpdatingInDeleted] using hboth
    · exact fun q hq => hcall.tracked q (by simp [Request.isUpdatingInDeleted, hq])
    · grind [Request.keepsAdded, Request.isUpdating, Request.keepsInDeleted,
        Request.isUpdatingInDeleted]

lemma Inside.holdsWalk (h : Inside g s) :
    s.HoldsWalk g.authFormat s.endPtr (s.visited g.authFormat) (s.walkEnd g.authFormat) :=
  ⟨fun p hp => (h.headers p hp).1, h.last⟩

lemma Inside.reclaim (h : Inside g s) (hhdr : HasHeader s)
    (hcall : IsCall g services s r cache) :
    ∃ res, VariableDxe.reclaim g services s r cache = .ok res := by
  have hkept := h.holdsKept hcall
  have hfits := @neededSize_le g s r hhdr h.holdsWalk.headers
  unfold VariableDxe.reclaim
  rw [touch_of_holds ⟨le_rfl, Nat.add_le_add_left hhdr.room _⟩]
  simp only [ok_bind]
  rcases validBuffer_spec hhdr hcall h.holdsWalk with ⟨-, hnone⟩ | ⟨b, hbuf, hb⟩
  · rw [hnone]
    exact ⟨_, rfl⟩
  rw [hbuf]
  simp only [ok_bind]
  rw [write_of_holds (by rw [length_readBytes]; exact ⟨le_rfl, Nat.add_le_add_left hb.room _⟩)]
  simp only [ok_bind]
  obtain ⟨hfst, hsec⟩ :=
    (@loops_eq_ok g services s b r hhdr hb h.holdsWalk _ _ _ _).mpr ⟨hkept, rfl, rfl, rfl, rfl⟩
  change ∃ res, (forVariables _ _ _ _ _ _ (startPass s b) >>= _) = _
  rw [hfst]
  simp only [ok_bind]
  rw [hsec]
  simp only [ok_bind]
  obtain ⟨hlow, hle⟩ := @loopsPass_currPtr g services s b r hb hkept
  have hbui := @built_loops g services s b r hb
  obtain ⟨o, hnew, hend⟩ := @installNew_spec g services s b cache r _ hhdr hcall hb hfits
    hbui.base_eq hbui.size_eq (by omega) hle
  rw [hnew]
  simp only [ok_bind]
  cases o with
  | none =>
    simp only []
    by_cases hpool : r.inPool = true
    · rw [if_pos hpool]
      exact ⟨_, rfl⟩
    · rw [if_neg hpool, hhdr.size, touch_of_holds ⟨le_rfl, le_rfl⟩]
      simp only [ok_bind]
      rw [write_of_holds (by
        have heq := hb.cache (by simpa using hpool)
        rw [length_readBytes, hbui.base_eq]
        unfold Region.Holds
        rw [hbui.base_eq, hbui.size_eq, heq]
        exact ⟨le_rfl, le_rfl⟩)]
      exact ⟨_, rfl⟩
  | some new =>
    exact replaceStore_returns hhdr hb h.holdsWalk (fun p hp => (h.headers p hp).2) (hend new rfl) _

lemma Inside.find (h : Inside g s) (query : Query) :
    findVariableEx g s query ≠ .error .outside ∧ findVariableEx g s query ≠ .error .running := by
  have hnam : ∀ p ∈ s.visited g.authFormat, s.HoldsNamed g.authFormat p := by
    intro p hp
    refine ⟨(h.headers p hp).1, fun hlive => ?_⟩
    simp only [isLive, decide_eq_true_eq] at hlive
    rcases hlive with hsta | hsta
    · exact (h.added p hp hsta).mono le_rfl (Nat.add_le_add_left (sizeAt_ge s g.authFormat p) p)
    · exact h.named p hp hsta
  rcases @findVariableEx_spec g s query h.last hnam with hfind | ⟨hfind, -⟩ <;> rw [hfind]
  · simp
  · exact ⟨by simp, by simp⟩

/-- The cache of a store, at an address of its own. -/
def cacheOf (s : Region) : Region := ⟨fun a => s.bytes (s.base + a), 0, s.size⟩

/-- Services without memory and limits. -/
def plainServices : Services := ⟨0, 0, 0, fun _ => false, fun _ => none, .success⟩

/-- A reclaim of the non-volatile store for an update. -/
def updateRequest (c d : Option ℕ) : Request := ⟨false, false, some ⟨0, c, d⟩, none⟩

lemma isCall_update (hhdr : HasHeader s) {c d : Option ℕ}
    (hd : ∀ q, d = some q → state (headerAt s.bytes q) ≠ varAdded) :
    IsCall g plainServices s (updateRequest c d) (cacheOf s) where
  pool := nofun
  aligned := rfl
  cacheSize := rfl
  cacheHeader := by
    rw [← hhdr.size]
    apply word_congr
    intro i _
    change s.bytes (s.base + (0 + 16 + i)) = _
    congr 1
    omega
  tracked p hp := hd p (of_decide_eq_true hp)
  newSize := nofun

lemma kept_of_reclaim (hhdr : HasHeader s) {c d : Option ℕ}
    (hd : ∀ q, d = some q → state (headerAt s.bytes q) ≠ varAdded) {res : Reclaimed}
    (h : reclaim g plainServices s (updateRequest c d) (cacheOf s) = .ok res) :
    s.HoldsWalk g.authFormat s.endPtr (s.visited g.authFormat) (s.walkEnd g.authFormat) ∧
      HoldsKept g s (updateRequest c d) := by
  have hcall := @isCall_update g s hhdr c d hd
  obtain ⟨-, h⟩ := touch_bind.mp h
  obtain ⟨o, hbuf, h⟩ := bind_eq_ok.mp h
  -- the cache is the buffer, whatever the walk reads
  obtain ⟨b, rfl⟩ : ∃ b, o = some b := by
    unfold validBuffer at hbuf
    rw [if_neg (show ¬ (updateRequest c d).inPool = true from Bool.false_ne_true)] at hbuf
    obtain ⟨-, hbuf⟩ := touch_bind.mp hbuf
    obtain ⟨b, -, hbuf⟩ := bind_eq_ok.mp hbuf
    cases hbuf
    exact ⟨b, rfl⟩
  obtain ⟨b', hb', h⟩ := bind_eq_ok.mp h
  obtain ⟨-, rfl⟩ := write_eq_ok.mp hb'
  obtain ⟨⟨e₁, pass₁⟩, hfst, h⟩ := bind_eq_ok.mp h
  obtain ⟨⟨e₂, pass₂⟩, hsec, -⟩ := bind_eq_ok.mp h
  obtain ⟨hwalk, -, -⟩ := forVariables_whole.mp hfst
  have hb : IsBuffer g s (updateRequest c d) b := by
    rcases validBuffer_spec hhdr hcall hwalk with ⟨hpool, -⟩ | ⟨b'', hbuf', hb⟩
    · cases hpool
    · rw [hbuf] at hbuf'
      cases hbuf'
      exact hb
  exact ⟨hwalk, ((loops_eq_ok hhdr hb hwalk).mp ⟨hfst, hsec⟩).1⟩

lemma inside_of_accesses (hhdr : HasHeader s) (h : AccessesInside g s) : Inside g s := by
  have hinit := totalsWalk_returns.mp h.init
  have hkept : ∀ c d : Option ℕ, (∀ q, d = some q → state (headerAt s.bytes q) ≠ varAdded) →
      HoldsKept g s (updateRequest c d) := by
    intro c d hd
    obtain ⟨res, hres⟩ := h.reclaim plainServices (updateRequest c d) (cacheOf s)
      (isCall_update hhdr hd)
    exact (kept_of_reclaim hhdr hd hres).2
  have hnone := hkept none none nofun
  refine ⟨fun p hp => ⟨hinit.1.headers p hp, hinit.2 p hp⟩, hinit.1.stop, ?_, ?_, ?_⟩
  · intro p hp hsta
    refine hnone.added p (List.mem_filter.mpr ⟨hp, ?_⟩)
    simp [Request.keepsAdded, hsta, Request.isUpdating, updateRequest]
  · intro p hp hsta
    refine hnone.named p hp ?_
    simp [Request.keepsInDeleted, hsta, Request.isUpdating, Request.isUpdatingInDeleted,
      updateRequest]
  · rintro p hp ⟨hsta, c, d, hc, hd, hadd, hcop⟩
    refine (hkept c d hadd).promoted p (mem_promotedOf.mpr ⟨⟨hp, ?_⟩, ?_⟩)
    · simp [Request.keepsInDeleted, hsta, Request.isUpdating, Request.isUpdatingInDeleted,
        updateRequest, hc, hd]
    · intro q hq hsame
      obtain ⟨hqad, hqfr⟩ := hcop q hq hsame
      constructor
      · rw [Bool.eq_false_iff]
        intro hkeep
        have hup := (Bool.and_eq_true_iff.mp hkeep).1
        simp [Request.isUpdating, updateRequest, hqad (keepsAdded_state hkeep)] at hup
      · intro hlt
        rw [Bool.eq_false_iff]
        intro hkeep
        have hboth := (Bool.and_eq_true_iff.mp hkeep).1
        rcases hqfr (keepsInDeleted_state hkeep) hlt with hq | hq <;>
          simp [Request.isUpdating, Request.isUpdatingInDeleted, updateRequest, hq] at hboth

/-- A store of 64 bytes with one added variable, whose header says how many bytes of data it has. -/
def shortStoreBytes (dataSize : UInt8) : List UInt8 :=
  [0x16, 0x36, 0xcf, 0xdd, 0x75, 0x32, 0x64, 0x41, 0x98, 0xb6, 0xfe, 0x85, 0x70, 0x7f, 0xfe, 0x7d,
    64, 0, 0, 0, 0x5a, 0xfe, 0, 0, 0, 0, 0, 0,
    0xaa, 0x55, 0x3f, 0, 7, 0, 0, 0, 4, 0, 0, 0, dataSize, 0, 0, 0,
    1, 2, 3, 4, 5, 6, 7, 8, 9, 10, 11, 12, 13, 14, 15, 16, 65, 0, 0, 0]

def shortStore (dataSize : UInt8) : Region :=
  ⟨fun a => (shortStoreBytes dataSize).getD a 0xff, 0, 64⟩

def plainGlobal : Global := ⟨false, false, false⟩

lemma hasHeader_shortStore : HasHeader (shortStore 16) := ⟨by decide, by decide, by decide⟩

end Edk2.VariableDxe
