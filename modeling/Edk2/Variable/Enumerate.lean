import Edk2.Lib.Resume
import Edk2.Variable.NextName

/-!
# Enumerating the names

`GetNextVariableName` looks up the copy of a variable that a search finds and goes on behind it.
Which copies it comes across depends on the copies that a search passes over: those in deleted
transition, and those of a name that occurs in several stores.
-/

namespace Edk2.VariableService

open Auth (Key Name Guid Attributes strSize)
open Resume

variable {g : Global} {type type' : StoreType} {types : List StoreType} {vars : List Copy}
  {fits : Copy → Bool} {u v : Copy} {i j p size fuel : ℕ} {track : Track} {inDeleted : Option ℕ}
  {key next : Key} {names : List Key} {ignoreRtCheck : Bool} {guid : Guid}

/-- The variable may be found. -/
def Copy.isLive (v : Copy) : Bool := v.isAdded || v.isInDeleted

/-- The variable that `FindVariableEx` finds: the first added one, else the last one in deleted
transition. -/
structure FoundAt (fits : Copy → Bool) (vars : List Copy) (i : ℕ) (v : Copy) : Prop where
  get : vars[i]? = some v
  fit : fits v = true
  first : v.isAdded = true ∧ (∀ j u, j < i → vars[j]? = some u → fits u = true →
      u.isAdded = false) ∨
    v.isInDeleted = true ∧ (∀ u ∈ vars, fits u = true → u.isAdded = false) ∧
      ∀ j u, i < j → vars[j]? = some u → fits u = true → u.isInDeleted = false

/-- No variable of the store may be found. -/
def Lacks (fits : Copy → Bool) (vars : List Copy) : Prop :=
  ∀ u ∈ vars, fits u = true → u.isLive = false

lemma FoundAt.isLive (h : FoundAt fits vars i v) : v.isLive = true := by
  rcases h.first with ⟨hadd, -⟩ | ⟨hdel, -⟩
  · simp [Copy.isLive, hadd]
  · simp [Copy.isLive, hdel]

lemma not_isAdded_of_isInDeleted (h : v.isInDeleted = true) : v.isAdded = false := by
  unfold Copy.isInDeleted at h
  unfold Copy.isAdded
  rw [of_decide_eq_true h]
  decide

/-- What the loop knows of the variables that it has passed. -/
structure Passed (fits : Copy → Bool) (vars : List Copy) (i : ℕ) (inDeleted : Option ℕ) :
    Prop where
  added : ∀ j u, j < i → vars[j]? = some u → fits u = true → u.isAdded = false
  noDeleted : inDeleted = none → ∀ j u, j < i → vars[j]? = some u → fits u = true →
    u.isInDeleted = false
  lastDeleted : ∀ d, inDeleted = some d → ∃ v, vars[d]? = some v ∧ fits v = true ∧
    v.isInDeleted = true ∧ ∀ j u, d < j → j < i → vars[j]? = some u → fits u = true →
      u.isInDeleted = false

lemma findLoop_spec (h : Passed fits vars i inDeleted) :
    (∀ track, findLoop fits (vars.drop i) i inDeleted = some track →
      ∃ v, FoundAt fits vars track.currPtr v) ∧
    (findLoop fits (vars.drop i) i inDeleted = none → Lacks fits vars) := by
  obtain ⟨rest, hrest⟩ : ∃ rest, vars.drop i = rest := ⟨_, rfl⟩
  rw [hrest]
  induction rest generalizing i inDeleted with
  | nil =>
    have hlt : ∀ j u, vars[j]? = some u → j < i := by
      intro j u hj
      have hlen := List.drop_eq_nil_iff.mp hrest
      exact lt_of_lt_of_le (List.getElem?_eq_some_iff.mp hj).1 hlen
    cases inDeleted with
    | none =>
      refine ⟨nofun, fun _ u hu hfits => ?_⟩
      obtain ⟨j, hj⟩ := List.mem_iff_getElem?.mp hu
      simp [Copy.isLive, h.added j u (hlt j u hj) hj hfits,
        h.noDeleted rfl j u (hlt j u hj) hj hfits]
    | some d =>
      refine ⟨fun track htra => ?_, nofun⟩
      obtain rfl := Option.some.inj htra
      obtain ⟨v, hget, hfits, hdel, hlast⟩ := h.lastDeleted d rfl
      refine ⟨v, hget, hfits, .inr ⟨hdel, fun u hu hfits => ?_, fun j u hd hj hfits => ?_⟩⟩
      · obtain ⟨j, hj⟩ := List.mem_iff_getElem?.mp hu
        exact h.added j u (hlt j u hj) hj hfits
      · exact hlast j u hd (hlt j u hj) hj hfits
  | cons v rest ih =>
    have hget : vars[i]? = some v := by
      rw [← Nat.add_zero i, ← List.getElem?_drop, hrest]
      rfl
    have hnext : vars.drop (i + 1) = rest := by
      rw [← List.drop_drop, hrest]
      rfl
    have hcase : ∀ {j u}, j < i + 1 → vars[j]? = some u → j < i ∨ u = v := by
      grind
    unfold findLoop
    by_cases hlive : ((v.isAdded || v.isInDeleted) && fits v) = true
    · rw [if_pos hlive]
      obtain ⟨hsta, hfits⟩ := Bool.and_eq_true_iff.mp hlive
      by_cases hdel : v.isInDeleted = true
      · rw [if_pos hdel]
        refine ih ⟨fun j u hj hu hfit => ?_, nofun, fun d hd => ?_⟩ hnext
        · rcases hcase hj hu with hlt | rfl
          · exact h.added j u hlt hu hfit
          · exact not_isAdded_of_isInDeleted hdel
        · grind
      · rw [if_neg hdel]
        refine ⟨fun track htra => ?_, nofun⟩
        obtain rfl := Option.some.inj htra
        have hadd : v.isAdded = true := by simpa [hdel] using hsta
        exact ⟨v, hget, hfits, .inl ⟨hadd, h.added⟩⟩
    · rw [if_neg hlive]
      have hpas : fits v = true → v.isAdded = false ∧ v.isInDeleted = false := by
        intro hfits
        simpa [hfits] using hlive
      refine ih ⟨fun j u hj hu hfit => ?_, fun hnone j u hj hu hfit => ?_, fun d hd => ?_⟩ hnext
      · rcases hcase hj hu with hlt | rfl
        · exact h.added j u hlt hu hfit
        · exact (hpas hfit).1
      · rcases hcase hj hu with hlt | rfl
        · exact h.noDeleted hnone j u hlt hu hfit
        · exact (hpas hfit).2
      · obtain ⟨w, hw, hfitsw, hdel, hlast⟩ := h.lastDeleted d hd
        refine ⟨w, hw, hfitsw, hdel, fun j u hlt hj hu hfit => ?_⟩
        rcases hcase hj hu with hlt' | rfl
        · exact hlast j u hlt hlt' hu hfit
        · exact (hpas hfit).2

lemma passed_zero (fits : Copy → Bool) (vars : List Copy) : Passed fits vars 0 none :=
  ⟨fun _ _ hj => absurd hj (Nat.not_lt_zero _), fun _ _ _ hj => absurd hj (Nat.not_lt_zero _),
    nofun⟩

lemma findVariableEx_some (h : findVariableEx g.atRuntime ignoreRtCheck key vars = some track) :
    ∃ v, FoundAt (Copy.fits g.atRuntime ignoreRtCheck key) vars track.currPtr v :=
  (findLoop_spec (passed_zero _ _)).1 track h

lemma findVariableEx_none (h : findVariableEx g.atRuntime ignoreRtCheck key vars = none) :
    Lacks (Copy.fits g.atRuntime ignoreRtCheck key) vars :=
  (findLoop_spec (passed_zero _ _)).2 h

/-- The variables of a store, none if it is not there. -/
def Global.stored (g : Global) (type : StoreType) : List Copy := (g.store type).getD []

lemma findIn_some (h : findIn g ignoreRtCheck key types = some (type, track)) :
    ∃ front back v, types = front ++ type :: back ∧
      (∀ t ∈ front, Lacks (Copy.fits g.atRuntime ignoreRtCheck key) (g.stored t)) ∧
      FoundAt (Copy.fits g.atRuntime ignoreRtCheck key) (g.stored type) track.currPtr v := by
  induction types with
  | nil => cases h
  | cons t types ih =>
    have hskip : Lacks (Copy.fits g.atRuntime ignoreRtCheck key) (g.stored t) →
        findIn g ignoreRtCheck key types = some (type, track) → ∃ front back v,
          t :: types = front ++ type :: back ∧
          (∀ t ∈ front, Lacks (Copy.fits g.atRuntime ignoreRtCheck key) (g.stored t)) ∧
          FoundAt (Copy.fits g.atRuntime ignoreRtCheck key) (g.stored type) track.currPtr v := by
      intro hlac hrest
      obtain ⟨front, back, v, heq, hfro, hfnd⟩ := ih hrest
      refine ⟨t :: front, back, v, by rw [heq]; rfl, fun t' ht' => ?_, hfnd⟩
      rcases List.mem_cons.mp ht' with rfl | ht'
      · exact hlac
      · exact hfro t' ht'
    unfold findIn at h
    cases hsto : g.store t with
    | none =>
      rw [hsto] at h
      refine hskip ?_ h
      unfold Global.stored
      rw [hsto]
      exact fun u hu => absurd hu List.not_mem_nil
    | some vars =>
      have hstor : g.stored t = vars := by
        unfold Global.stored
        rw [hsto]
        rfl
      rw [hsto] at h
      dsimp only at h
      cases hfind : findVariableEx g.atRuntime ignoreRtCheck key vars with
      | none =>
        grind [findVariableEx_none]
      | some found =>
        rw [hfind] at h
        obtain ⟨rfl, rfl⟩ := Prod.mk.inj (Option.some.inj h)
        obtain ⟨v, hv⟩ := findVariableEx_some hfind
        exact ⟨[], types, v, rfl, fun _ ht => absurd ht List.not_mem_nil, hstor ▸ hv⟩

lemma findIn_none (h : findIn g ignoreRtCheck key types = none) :
    ∀ t ∈ types, Lacks (Copy.fits g.atRuntime ignoreRtCheck key) (g.stored t) := by
  induction types with
  | nil => exact fun t ht => absurd ht List.not_mem_nil
  | cons t types ih =>
    intro t' ht'
    unfold findIn at h
    cases hsto : g.store t with
    | none =>
      rw [hsto] at h
      rcases List.mem_cons.mp ht' with rfl | ht'
      · unfold Global.stored
        rw [hsto]
        exact fun u hu => absurd hu List.not_mem_nil
      · exact ih h t' ht'
    | some vars =>
      grind [Global.stored, findVariableEx_none]

/-- The stores that are searched before. -/
def StoreType.previous : StoreType → List StoreType
  | .volatile => []
  | .hob => [.volatile]
  | .nv => [.volatile, .hob]

/-- `FindVariable` finds this variable. -/
structure Finds (g : Global) (key : Key) (type : StoreType) (i : ℕ) (v : Copy) : Prop where
  found : FoundAt (Copy.fits g.atRuntime false key) (g.stored type) i v
  previous : ∀ t ∈ type.previous, Lacks (Copy.fits g.atRuntime false key) (g.stored t)

lemma findVariable_some (h : findVariable g false key = some (type, track)) :
    ∃ v, Finds g key type track.currPtr v := by
  obtain ⟨front, back, v, heq, hfro, hfnd⟩ := findIn_some h
  refine ⟨v, hfnd, fun t ht => hfro t ?_⟩
  rcases front with _ | ⟨a, _ | ⟨b, _ | ⟨c, front⟩⟩⟩
  · obtain ⟨rfl, -⟩ := List.cons.inj heq
    exact ht
  · obtain ⟨rfl, heq₁⟩ := List.cons.inj heq
    obtain ⟨rfl, -⟩ := List.cons.inj heq₁
    exact ht
  · obtain ⟨rfl, heq₁⟩ := List.cons.inj heq
    obtain ⟨rfl, heq₂⟩ := List.cons.inj heq₁
    obtain ⟨rfl, -⟩ := List.cons.inj heq₂
    exact ht
  · have hlen := congrArg List.length heq
    simp at hlen

lemma findVariable_none (h : findVariable g false key = none) (type : StoreType) :
    Lacks (Copy.fits g.atRuntime false key) (g.stored type) := by
  apply findIn_none h
  cases type <;> decide

lemma FoundAt.unique (h : FoundAt fits vars i u) (h' : FoundAt fits vars j v) : i = j := by
  have hmem := List.mem_of_getElem? h.get
  have hmem' := List.mem_of_getElem? h'.get
  rcases h.first with ⟨hadd, hfst⟩ | ⟨hdel, hnone, hlast⟩ <;>
    rcases h'.first with ⟨hadd', hfst'⟩ | ⟨hdel', hnon', hlas'⟩
  · rcases Nat.lt_trichotomy i j with hlt | heq | hlt
    · rw [hfst' i u hlt h.get h.fit] at hadd
      cases hadd
    · exact heq
    · rw [hfst j v hlt h'.get h'.fit] at hadd'
      cases hadd'
  · rw [hnon' u hmem h.fit] at hadd
    cases hadd
  · rw [hnone v hmem' h'.fit] at hadd'
    cases hadd'
  · rcases Nat.lt_trichotomy i j with hlt | heq | hlt
    · rw [hlast j v hlt h'.get h'.fit] at hdel'
      cases hdel'
    · exact heq
    · rw [hlas' i u hlt h.get h.fit] at hdel
      cases hdel

lemma Finds.unique (h : Finds g key type i u) (h' : Finds g key type' j v) :
    type = type' ∧ i = j := by
  have hnot : ∀ {t t' i j u v}, Finds g key t i u → Finds g key t' j v → t ∉ t'.previous := by
    intro t t' i j u v h h' ht
    have hlac := h'.previous t ht u (List.mem_of_getElem? h.found.get) h.found.fit
    rw [h.found.isLive] at hlac
    cases hlac
  have htype : type = type' := by
    have hnot₁ := hnot h h'
    have hnot₂ := hnot h' h
    cases type <;> cases type' <;> first | rfl | simp [StoreType.previous] at hnot₁ hnot₂
  subst htype
  exact ⟨rfl, h.found.unique h'.found⟩

/-- The variables of some stores, one store after the other. -/
def storeCopies (g : Global) (types : List StoreType) : List (StoreType × Copy) :=
  types.flatMap fun type => (g.stored type).map fun v => (type, v)

/-- All variables. -/
def Global.copies (g : Global) : List (StoreType × Copy) := storeCopies g [.volatile, .hob, .nv]

/-- Where a store starts among all variables. -/
def Global.offset (g : Global) : StoreType → ℕ
  | .volatile => 0
  | .hob => (g.stored .volatile).length
  | .nv => (g.stored .volatile).length + (g.stored .hob).length

lemma storeCopies_cons : storeCopies g (type :: types) =
    (g.stored type).map (fun v => (type, v)) ++ storeCopies g types := rfl

lemma drop_copies (h : i ≤ (g.stored type).length) : g.copies.drop (g.offset type + i) =
    ((g.stored type).drop i).map (fun v => (type, v)) ++ storeCopies g type.next := by
  unfold Global.copies
  cases type with
  | volatile =>
    rw [storeCopies_cons, List.drop_append_of_le_length (by simpa [Global.offset] using h)]
    simp [Global.offset, StoreType.next]
  | hob =>
    rw [storeCopies_cons, storeCopies_cons, List.drop_append, List.drop_eq_nil_of_le
      (by simp [Global.offset]), List.nil_append]
    simp only [Global.offset, List.length_map, Nat.add_sub_cancel_left]
    rw [List.drop_append_of_le_length (by simpa using h), List.map_drop]
    rfl
  | nv =>
    rw [storeCopies_cons, storeCopies_cons, storeCopies_cons, List.drop_append,
      List.drop_eq_nil_of_le (by simp [Global.offset]; omega), List.nil_append, List.drop_append,
      List.drop_eq_nil_of_le (by simp [Global.offset]; omega), List.nil_append]
    simp only [Global.offset, List.length_map]
    rw [show (g.stored .volatile).length + (g.stored .hob).length + i -
      (g.stored .volatile).length - (g.stored .hob).length = i by omega,
      List.drop_append_of_le_length (by simpa using h), List.map_drop]
    rfl

lemma getElem?_copies (h : (g.stored type)[i]? = some v) :
    g.copies[g.offset type + i]? = some (type, v) := by
  have hlt := (List.getElem?_eq_some_iff.mp h).1
  rw [← Nat.add_zero (g.offset type + i), ← List.getElem?_drop, drop_copies hlt.le,
    List.getElem?_append_left (by simpa using Nat.sub_pos_of_lt hlt), List.getElem?_map,
    List.getElem?_drop, Nat.add_zero, h]
  rfl

lemma mem_copies (h : (type, v) ∈ g.copies) : v ∈ g.stored type := by
  obtain ⟨t, -, ht⟩ := List.mem_flatMap.mp h
  obtain ⟨u, hu, heq⟩ := List.mem_map.mp ht
  obtain ⟨rfl, rfl⟩ := Prod.mk.inj heq
  exact hu

lemma exists_offset (h : g.copies[p]? = some (type, v)) :
    ∃ i, p = g.offset type + i ∧ (g.stored type)[i]? = some v := by
  have hspl : g.copies = (g.stored .volatile).map (fun v => (StoreType.volatile, v)) ++
      ((g.stored .hob).map (fun v => (StoreType.hob, v)) ++
        (g.stored .nv).map (fun v => (StoreType.nv, v))) := by
    unfold Global.copies
    rw [storeCopies_cons, storeCopies_cons, storeCopies_cons]
    simp [storeCopies]
  have hsto : ∀ {t : StoreType} {q : ℕ},
      ((g.stored t).map fun v => (t, v))[q]? = some (type, v) →
        t = type ∧ (g.stored type)[q]? = some v := by
    intro t q hq
    rw [List.getElem?_map] at hq
    obtain ⟨w, hw, heq⟩ := Option.map_eq_some_iff.mp hq
    obtain ⟨rfl, rfl⟩ := Prod.mk.inj heq
    exact ⟨rfl, hw⟩
  rw [hspl] at h
  by_cases hvol : p < (g.stored .volatile).length
  · rw [List.getElem?_append_left (by simpa using hvol)] at h
    obtain ⟨rfl, hget⟩ := hsto h
    exact ⟨p, (Nat.zero_add p).symm, hget⟩
  · grind [List.getElem?_append_right, List.length_map, List.getElem?_append_left, Global.offset]

lemma fits_self (h : (!g.atRuntime || v.attributes.runtimeAccess) = true) :
    Copy.fits g.atRuntime false v.key v = true := by
  simpa [Copy.fits] using h

lemma fits_trans (h : Copy.fits g.atRuntime false key v = true)
    (h' : Copy.fits g.atRuntime false v.key u = true) :
    Copy.fits g.atRuntime false key u = true := by
  simp only [Copy.fits, Bool.and_eq_true, Bool.or_eq_true, decide_eq_true_eq] at h h' ⊢
  refine ⟨h'.1, ?_⟩
  rcases h.2 with hnil | hkey
  · exact .inl hnil
  · grind

lemma fits_seen (h : Copy.fits g.atRuntime false key v = true) :
    (!g.atRuntime || v.attributes.runtimeAccess) = true := by
  simp only [Copy.fits, Bool.and_eq_true] at h
  simpa using h.1

lemma addedFound_iff : (match findVariableEx g.atRuntime false v.key (g.stored type) with
      | some track => ((g.stored type)[track.currPtr]?).any Copy.isAdded
      | none => false) = true ↔ ∃ u ∈ g.stored type,
        Copy.fits g.atRuntime false v.key u = true ∧ u.isAdded = true := by
  cases hfind : findVariableEx g.atRuntime false v.key (g.stored type) with
  | none =>
    refine ⟨by simp, ?_⟩
    rintro ⟨u, hu, hfits, hadd⟩
    have hlac := findVariableEx_none hfind u hu hfits
    simp [Copy.isLive, hadd] at hlac
  | some track =>
    obtain ⟨w, hw⟩ := findVariableEx_some hfind
    dsimp only
    rw [hw.get, Option.any_some]
    refine ⟨fun h => ⟨w, List.mem_of_getElem? hw.get, hw.fit, h⟩, ?_⟩
    rintro ⟨u, hu, hfits, hadd⟩
    rcases hw.first with ⟨hadd', -⟩ | ⟨-, hnone, -⟩
    · exact hadd'
    · rw [hnone u hu hfits] at hadd
      cases hadd

lemma hobFound_iff : (match g.hobVariables with
      | some hob => (findVariableEx g.atRuntime false v.key hob).isSome
      | none => false) = true ↔ ∃ u ∈ g.stored .hob,
        Copy.fits g.atRuntime false v.key u = true ∧ u.isLive = true := by
  change _ ↔ ∃ u ∈ g.hobVariables.getD [], _
  cases g.hobVariables with
  | none => simp
  | some hob =>
    dsimp only [Option.getD_some]
    cases hfind : findVariableEx g.atRuntime false v.key hob with
    | none =>
      refine ⟨by simp, ?_⟩
      rintro ⟨u, hu, hfits, hlive⟩
      rw [findVariableEx_none hfind u hu hfits] at hlive
      cases hlive
    | some track =>
      obtain ⟨w, hw⟩ := findVariableEx_some hfind
      exact ⟨fun _ => ⟨w, List.mem_of_getElem? hw.get, hw.fit, hw.isLive⟩, fun _ => rfl⟩

lemma isReturned_iff : isReturned g type (g.stored type) v = true ↔ v.isLive = true ∧
    (!g.atRuntime || v.attributes.runtimeAccess) = true ∧
    ¬ (v.isInDeleted = true ∧ ∃ u ∈ g.stored type,
      Copy.fits g.atRuntime false v.key u = true ∧ u.isAdded = true) ∧
    ¬ (type = .nv ∧ ∃ u ∈ g.stored .hob,
      Copy.fits g.atRuntime false v.key u = true ∧ u.isLive = true) := by
  unfold isReturned
  rw [← addedFound_iff, ← hobFound_iff]
  simp only [Bool.and_eq_true, Bool.not_eq_true', Bool.eq_false_iff, ne_eq, decide_eq_true_eq,
    and_assoc]
  rfl

lemma Finds.isReturned (h : Finds g key type i v) : isReturned g type (g.stored type) v = true := by
  refine isReturned_iff.mpr ⟨h.found.isLive, fits_seen h.found.fit, ?_, ?_⟩
  · rintro ⟨hdel, u, hu, hfits, hadd⟩
    rcases h.found.first with ⟨hadd', -⟩ | ⟨-, hnone, -⟩
    · rw [not_isAdded_of_isInDeleted hdel] at hadd'
      cases hadd'
    · rw [hnone u hu (fits_trans h.found.fit hfits)] at hadd
      cases hadd
  · rintro ⟨rfl, u, hu, hfits, hlive⟩
    have hlac := h.previous .hob (by decide) u hu (fits_trans h.found.fit hfits)
    rw [hlive] at hlac
    cases hlac

/-- The name of a variable that is returned. -/
def Global.returnedKey (g : Global) (c : StoreType × Copy) : Option Key :=
  if isReturned g c.1 (g.stored c.1) c.2 then some c.2.key else none

/-- The name at a position, if the variable there is returned. -/
def Global.keyAt (g : Global) (p : ℕ) : Option Key := g.copies[p]?.bind g.returnedKey

/-- The position of the variable that a search for a name finds. -/
def Global.home (g : Global) (key : Key) : ℕ :=
  match findVariable g false key with
  | some (type, track) => g.offset type + track.currPtr
  | none => 0

lemma keyAt_eq_some : g.keyAt p = some key ↔ ∃ type v, g.copies[p]? = some (type, v) ∧
    isReturned g type (g.stored type) v = true ∧ v.key = key := by
  unfold Global.keyAt Global.returnedKey
  rw [Option.bind_eq_some_iff]
  constructor
  · simp
  · simp

lemma exists_finds (h : g.keyAt p = some key) : ∃ type i v, Finds g key type i v ∧
    g.home key = g.offset type + i ∧ v.key = key := by
  obtain ⟨type, v, hget, hret, rfl⟩ := keyAt_eq_some.mp h
  obtain ⟨hlive, hseen, -⟩ := isReturned_iff.mp hret
  unfold Global.home
  cases hfind : findVariable g false v.key with
  | none =>
    have hmem := mem_copies (List.mem_of_getElem? hget)
    have hlac := findVariable_none hfind type v hmem (fits_self hseen)
    rw [hlive] at hlac
    cases hlac
  | some found =>
    obtain ⟨w, hw⟩ := findVariable_some hfind
    refine ⟨_, _, w, hw, rfl, ?_⟩
    have hfits := hw.found.fit
    simp only [Copy.fits, Bool.and_eq_true, Bool.or_eq_true, decide_eq_true_eq] at hfits
    exact hfits.2.resolve_left v.name_ne_nil

lemma Finds.keyAt (h : Finds g key type i v) : g.keyAt (g.offset type + i) = some v.key :=
  keyAt_eq_some.mpr ⟨type, v, getElem?_copies h.found.get, h.isReturned, rfl⟩

lemma homes (g : Global) : Homes g.keyAt g.home g.copies.length where
  at_home := by
    intro p key h
    obtain ⟨type, i, v, hfin, hhome, rfl⟩ := exists_finds h
    rw [hhome]
    exact hfin.keyAt
  bound := by
    intro p hp
    unfold Global.keyAt
    rw [List.getElem?_eq_none hp]
    rfl

/-- The buffer is large enough for all names. -/
def LargeEnough (g : Global) (size : ℕ) : Prop :=
  2 ≤ size ∧ ∀ type, ∀ v ∈ g.stored type, strSize v.key.name ≤ size

/-- A call with this name goes on from a position. -/
def Resumes (g : Global) (size : ℕ) (key : Key) (p : ℕ) : Prop :=
  getNextVariableName g size key =
    match (g.copies.drop p).findSome? g.returnedKey with
    | some next => (.success, next)
    | none => (.notFound, key)

lemma find?_key (vars : List Copy) :
    (vars.find? (isReturned g type (g.stored type))).map Copy.key =
      (vars.map fun v => (type, v)).findSome? g.returnedKey := by
  induction vars with
  | nil => rfl
  | cons v vars ih =>
    rw [List.map_cons, List.findSome?_cons, List.find?_cons]
    by_cases hret : isReturned g type (g.stored type) v = true
    · rw [hret, Global.returnedKey, if_pos hret]
      rfl
    · simp [hret, Global.returnedKey]
      omega

lemma nextIn_key : (nextIn g types).map Copy.key =
    (storeCopies g types).findSome? g.returnedKey := by
  induction types with
  | nil => rfl
  | cons type types ih =>
    grind [storeCopies_cons, find?_key, Global.stored, nextIn]

lemma nextFrom_key (hstor : g.store type = some vars) (h : i ≤ vars.length) :
    (nextFrom g type i).map Copy.key =
      (g.copies.drop (g.offset type + i)).findSome? g.returnedKey := by
  have hsto : g.stored type = vars := by simp [Global.stored, hstor]
  rw [drop_copies (by rwa [hsto]), List.findSome?_append, ← find?_key, ← nextIn_key, hsto]
  unfold nextFrom
  rw [hstor]
  dsimp only
  cases (vars.drop i).find? (isReturned g type vars) <;> rfl

lemma resumes (hlar : LargeEnough g size) (hname : strSize key.name ≤ size)
    (h : findVariable g false key = some (type, track)) :
    Resumes g size key (g.offset type +
      if key.name ≠ [] then track.currPtr + 1 else track.currPtr) := by
  obtain ⟨v, hv⟩ := findVariable_some h
  have hlt := (List.getElem?_eq_some_iff.mp hv.found.get).1
  obtain ⟨vars, hsto⟩ : ∃ vars, g.store type = some vars := by
    cases hsto : g.store type with
    | none => simp [Global.stored, hsto] at hlt
    | some vars => exact ⟨vars, rfl⟩
  have hstor : g.stored type = vars := by simp [Global.stored, hsto]
  rw [hstor] at hlt
  have hkey := @nextFrom_key g type vars
    (if key.name ≠ [] then track.currPtr + 1 else track.currPtr) hsto (by split_ifs <;> omega)
  have hbou : ¬ (size / 2 = 0 ∨ size / 2 ≤ key.name.length) := by
    have hle := hlar.1
    unfold strSize at hname
    omega
  unfold Resumes getNextVariableName
  rw [if_neg hbou, ← hkey]
  unfold getNextVariableInternal
  rw [h]
  dsimp only
  cases hnext : nextFrom g type (if key.name ≠ [] then track.currPtr + 1 else track.currPtr) with
  | none => rfl
  | some w =>
    rw [hnext] at hkey
    obtain ⟨⟨t, u⟩, hu, hret⟩ := List.exists_of_findSome?_eq_some hkey.symm
    have hsize : strSize w.key.name ≤ size := by
      unfold Global.returnedKey at hret
      split_ifs at hret
      rw [← Option.some.inj hret]
      exact hlar.2 t u (mem_copies (List.mem_of_mem_drop hu))
    dsimp only
    rw [if_pos hsize]
    rfl

lemma resumes_home (hlar : LargeEnough g size) (h : g.keyAt p = some key) :
    Resumes g size key (g.home key + 1) := by
  obtain ⟨type, v, hget, hret, rfl⟩ := keyAt_eq_some.mp h
  have hname := hlar.2 type v (mem_copies (List.mem_of_getElem? hget))
  obtain ⟨type', i, w, hfin, hhome, hkey⟩ := exists_finds h
  unfold Global.home at hhome ⊢
  cases hfind : findVariable g false v.key with
  | none =>
    have hlac := findVariable_none hfind type' w (List.mem_of_getElem? hfin.found.get)
      hfin.found.fit
    rw [hfin.found.isLive] at hlac
    cases hlac
  | some found =>
    have hres := resumes hlar hname hfind
    rwa [if_pos v.name_ne_nil] at hres

lemma nextNames_of_visits (hlar : LargeEnough g size) (hres : Resumes g size key p)
    (h : Visits g.keyAt g.home p names) :
    nextNames g size (names.length + 1) key = (names, some .notFound) := by
  induction names generalizing key p with
  | nil =>
    cases h with
    | done hnone =>
      unfold nextNames
      rw [hres, findSome?_drop_eq_none.mpr hnone]
  | cons next names ih =>
    cases h with
    | next hnext hkey rest =>
      have hrest := ih (resumes_home hlar hkey) rest
      rw [List.length_cons]
      unfold nextNames
      rw [hres, findSome?_drop.mpr ⟨_, hnext, hkey⟩]
      dsimp only
      rw [hrest]

lemma visits_of_nextNames (hlar : LargeEnough g size) (hres : Resumes g size key p)
    (h : nextNames g size fuel key = (names, some .notFound)) :
    Visits g.keyAt g.home p names := by
  induction fuel generalizing key p names with
  | zero => cases h
  | succ fuel ih =>
    unfold nextNames at h
    cases hfind : (g.copies.drop p).findSome? g.returnedKey with
    | none =>
      rw [hres, hfind] at h
      obtain ⟨rfl, -⟩ := Prod.mk.inj h
      exact .done (findSome?_drop_eq_none.mp hfind)
    | some next =>
      rw [hres, hfind] at h
      dsimp only at h
      obtain ⟨q, hnext, hkey⟩ := findSome?_drop.mp hfind
      obtain ⟨names', status, hrest⟩ : ∃ names' status, nextNames g size fuel next =
        (names', status) := ⟨_, _, rfl⟩
      rw [hrest] at h
      obtain ⟨rfl, rfl⟩ := Prod.mk.inj h
      exact .next hnext hkey (ih (resumes_home hlar hkey) hrest)

/-! ### All names, each once -/

/-- The calls from the empty name on return each variable that can be read, once, and then find no
more. -/
def Enumerates (g : Global) : Prop :=
  ∀ size guid, LargeEnough g size → ∃ fuel names,
    nextNames g size fuel ⟨[], guid⟩ = (names, some .notFound) ∧ names.Nodup ∧
      ∀ key, key ∈ names ↔ (getVariable g key).isSome = true

/-- The position of the variable that a search for the empty name finds. -/
def Global.start (g : Global) (guid : Guid) : ℕ :=
  match findVariable g false ⟨[], guid⟩ with
  | some (type, track) => g.offset type + track.currPtr
  | none => 0

/-- The copy of a variable that a search finds lies nowhere in front of the one that the empty name
finds. The first copy that is returned behind it is one of the variable whose copy comes next. -/
structure InOrder (g : Global) : Prop where
  start : ∀ guid key, (getVariable g key).isSome = true → g.start guid ≤ g.home key
  next : ∀ key, (getVariable g key).isSome = true → Leads g.keyAt g.home (g.home key + 1)

/-- A store has one added copy of a variable at most, and the volatile variables are in no other
store. -/
structure Regular (g : Global) : Prop where
  added : ∀ (type : StoreType) (i j : ℕ) (u v : Copy), (g.stored type)[i]? = some u →
    (g.stored type)[j]? = some v → u.isAdded = true → v.isAdded = true → u.key = v.key → i = j
  apart : ∀ type, type ≠ .volatile → ∀ u ∈ g.stored .volatile, ∀ v ∈ g.stored type,
    u.isLive = true → v.isLive = true → u.key ≠ v.key

lemma getVariable_isSome : (getVariable g key).isSome = true ↔
    g.keyAt (g.home key) = some key := by
  unfold getVariable
  constructor
  · intro h
    by_cases hnil : key.name = []
    · rw [if_pos hnil] at h
      cases h
    · rw [if_neg hnil] at h
      unfold Global.home
      cases hfind : findVariable g false key with
      | none =>
        rw [hfind] at h
        cases h
      | some found =>
        obtain ⟨v, hv⟩ := findVariable_some hfind
        have hfits := hv.found.fit
        simp only [Copy.fits, Bool.and_eq_true, Bool.or_eq_true, decide_eq_true_eq] at hfits
        exact hv.keyAt.trans (congrArg some (hfits.2.resolve_left hnil))
  · intro h
    obtain ⟨_, v, -, -, rfl⟩ := keyAt_eq_some.mp h
    obtain ⟨type, i, w, hfin, -⟩ := exists_finds h
    rw [if_neg v.name_ne_nil]
    cases hfind : findVariable g false v.key with
    | none =>
      have hlac := findVariable_none hfind type w (List.mem_of_getElem? hfin.found.get)
        hfin.found.fit
      rw [hfin.found.isLive] at hlac
      cases hlac
    | some found =>
      obtain ⟨u, hu⟩ := findVariable_some hfind
      have hget := hu.found.get
      unfold Global.stored at hget
      cases hsto : g.store found.1 with
      | none =>
        rw [hsto] at hget
        cases hget
      | some vars =>
        rw [hsto, Option.getD_some] at hget
        simp [hsto, hget]

lemma keyAt_of_none (h : findVariable g false ⟨[], guid⟩ = none) (p : ℕ) : g.keyAt p = none := by
  cases hkey : g.keyAt p with
  | none => rfl
  | some key =>
    obtain ⟨type, v, hget, hret, -⟩ := keyAt_eq_some.mp hkey
    obtain ⟨hlive, hseen, -⟩ := isReturned_iff.mp hret
    have hfits : Copy.fits g.atRuntime false ⟨[], guid⟩ v = true := by
      simpa [Copy.fits] using hseen
    rw [findVariable_none h type v (mem_copies (List.mem_of_getElem? hget)) hfits] at hlive
    cases hlive

lemma leads_start (h : findVariable g false ⟨[], guid⟩ = some (type, track)) :
    Leads g.keyAt g.home (g.start guid) := by
  obtain ⟨v, hv⟩ := findVariable_some h
  have hself := fits_self (fits_seen hv.found.fit)
  have hsame : Finds g v.key type track.currPtr v := by
    refine ⟨⟨hv.found.get, hself, ?_⟩, fun t ht u hu hfits =>
      hv.previous t ht u hu (fits_trans hv.found.fit hfits)⟩
    rcases hv.found.first with ⟨hadd, hfst⟩ | ⟨hdel, hnone, hlast⟩
    · exact .inl ⟨hadd, fun j u hlt hu hfits =>
        hfst j u hlt hu (fits_trans hv.found.fit hfits)⟩
    · exact .inr ⟨hdel, fun u hu hfits => hnone u hu (fits_trans hv.found.fit hfits),
        fun j u hlt hu hfits => hlast j u hlt hu (fits_trans hv.found.fit hfits)⟩
  have hsta : g.start guid = g.offset type + track.currPtr := by
    unfold Global.start
    rw [h]
  intro q j hnext hj
  -- the variable is returned itself
  have hkey := hv.keyAt
  rw [← hsta] at hkey
  have hnex' : Next g.keyAt (g.start guid) (g.start guid) :=
    ⟨le_rfl, by rw [hkey]; exact Option.some_ne_none _, fun i hi hlt => by omega⟩
  obtain rfl := hnext.unique hnex'
  obtain rfl := Option.some.inj (hkey.symm.trans hj)
  obtain ⟨type', i, w, hfin, hhome, -⟩ := exists_finds hkey
  obtain ⟨rfl, rfl⟩ := hsame.unique hfin
  rw [hhome, ← hsta]
  exact ⟨le_rfl, fun k _ hle => hle⟩

lemma exists_largeEnough (g : Global) : ∃ size, LargeEnough g size := by
  have hbou : ∀ vars : List Copy, ∃ n, ∀ v ∈ vars, strSize v.key.name ≤ n := by
    intro vars
    induction vars with
    | nil => exact ⟨0, fun v hv => absurd hv List.not_mem_nil⟩
    | cons v vars ih =>
      obtain ⟨n, hn⟩ := ih
      refine ⟨strSize v.key.name + n, fun u hu => ?_⟩
      rcases List.mem_cons.mp hu with rfl | hu
      · exact Nat.le_add_right _ _
      · exact (hn u hu).trans (Nat.le_add_left _ _)
  obtain ⟨a, ha⟩ := hbou (g.stored .volatile)
  obtain ⟨b, hb⟩ := hbou (g.stored .hob)
  obtain ⟨c, hc⟩ := hbou (g.stored .nv)
  refine ⟨2 + a + b + c, by omega, fun type v hv => ?_⟩
  cases type with
  | volatile =>
    have := ha v hv
    omega
  | hob =>
    have := hb v hv
    omega
  | nv =>
    have := hc v hv
    omega

lemma resumes_start (hlar : LargeEnough g size)
    (h : findVariable g false ⟨[], guid⟩ = some (type, track)) :
    Resumes g size ⟨[], guid⟩ (g.start guid) := by
  have hname : strSize (⟨[], guid⟩ : Key).name ≤ size := hlar.1
  have hres := resumes hlar hname h
  unfold Global.start
  rw [h]
  rwa [if_neg (fun hne => hne rfl)] at hres

lemma InOrder.enumerates (h : InOrder g) : Enumerates g := by
  intro size guid hlar
  cases hfind : findVariable g false ⟨[], guid⟩ with
  | none =>
    have hnone := keyAt_of_none hfind
    refine ⟨1, [], ?_, List.nodup_nil, fun key => ?_⟩
    · have hbou : ¬ (size / 2 = 0 ∨ size / 2 ≤ ([] : Name).length) := by
        have hle := hlar.1
        rw [List.length_nil]
        omega
      unfold nextNames getNextVariableName
      rw [if_neg hbou]
      unfold getNextVariableInternal
      rw [hfind]
      rfl
    · simp [getVariable_isSome, hnone]
  | some found =>
    obtain ⟨names, hvis, hnod, hmem⟩ := exists_visits (homes g) (leads_start hfind)
      fun key hkey _ => h.next key (getVariable_isSome.mpr hkey)
    refine ⟨_, names, nextNames_of_visits hlar (resumes_start hlar hfind) hvis, hnod, fun key => ?_⟩
    rw [hmem, getVariable_isSome]
    exact and_iff_left_of_imp fun hkey => h.start guid key (getVariable_isSome.mpr hkey)

lemma Regular.le_home (h : Regular g) (q : ℕ) (key : Key) (hq : g.keyAt q = some key) :
    q ≤ g.home key := by
  obtain ⟨type, v, hget, hret, rfl⟩ := keyAt_eq_some.mp hq
  obtain ⟨i, rfl, hi⟩ := exists_offset hget
  obtain ⟨type', i', w, hfin, hhome, hkey⟩ := exists_finds hq
  obtain ⟨hlive, hseen, hadd, hhob⟩ := isReturned_iff.mp hret
  have hv := List.mem_of_getElem? hi
  have hw := List.mem_of_getElem? hfin.found.get
  have hbef : type ∉ type'.previous := by
    intro hin
    rw [hfin.previous type hin v hv (fits_self hseen)] at hlive
    cases hlive
  obtain rfl : type = type' := by
    cases type' with
    | volatile =>
      cases type with
      | volatile => rfl
      | hob => exact absurd hkey (h.apart .hob (by decide) w hw v hv hfin.found.isLive hlive)
      | nv => exact absurd hkey (h.apart .nv (by decide) w hw v hv hfin.found.isLive hlive)
    | hob =>
      cases type with
      | volatile => exact absurd (by decide) hbef
      | hob => rfl
      | nv => exact absurd ⟨rfl, w, hw, hfin.found.fit, hfin.found.isLive⟩ hhob
    | nv =>
      cases type with
      | volatile => exact absurd (by decide) hbef
      | hob => exact absurd (by decide) hbef
      | nv => rfl
  rw [hhome]
  apply Nat.add_le_add_left
  rcases hfin.found.first with ⟨hadd', hfst⟩ | ⟨hdel', hnone, hlast⟩
  · -- a copy in deleted transition is not returned
    have hnot : v.isInDeleted = false := by
      by_contra hdel
      exact hadd ⟨by simpa using hdel, w, hw, hfin.found.fit, hadd'⟩
    have hvad : v.isAdded = true := by
      simpa [Copy.isLive, hnot] using hlive
    exact (h.added type i i' v w hi hfin.found.get hvad hadd' hkey.symm).le
  · have hnotA := hnone v hv (fits_self hseen)
    have hdel : v.isInDeleted = true := by
      simpa [Copy.isLive, hnotA] using hlive
    by_contra hlt
    rw [hlast i v (by omega) hi (fits_self hseen)] at hdel
    cases hdel

lemma Enumerates.inOrder (h : Enumerates g) (hreg : Regular g) : InOrder g := by
  obtain ⟨size, hlar⟩ := exists_largeEnough g
  have hall : ∀ guid key, g.keyAt (g.home key) = some key →
      g.start guid ≤ g.home key ∧ Leads g.keyAt g.home (g.home key + 1) := by
    intro guid key hkey
    cases hfind : findVariable g false ⟨[], guid⟩ with
    | none =>
      rw [keyAt_of_none hfind] at hkey
      cases hkey
    | some found =>
      obtain ⟨fuel, names, hnam, -, hmem⟩ := h size guid hlar
      have hvis := visits_of_nextNames hlar (resumes_start hlar hfind) hnam
      exact hvis.leads_all hreg.le_home
        (fun k hk => (hmem k).mpr (getVariable_isSome.mpr hk)) key hkey
  refine ⟨fun guid key hsome => (hall guid key (getVariable_isSome.mp hsome)).1,
    fun key hsome => ?_⟩
  exact (hall ⟨List.replicate 16 0, rfl⟩ key (getVariable_isSome.mp hsome)).2

/-- In every state of the stores in which the copies are in order, each variable is returned once.
Where no store holds a variable twice, and no other store a volatile one, they have to be. -/
theorem enumerates_iff (g : Global) :
    (InOrder g → Enumerates g) ∧ (Regular g → Enumerates g → InOrder g) :=
  ⟨InOrder.enumerates, fun hregular h => h.inOrder hregular⟩

lemma length_zeroGuid : (List.replicate 16 (0 : UInt8)).length = 16 := rfl

/-- The names of the two examples. -/
def exampleKey (c : Char) : Key := ⟨Auth.ascii [c], ⟨List.replicate 16 0, length_zeroGuid⟩⟩

/-- A variable of this name, state and content. -/
def exampleCopy (c : Char) (state : UInt8) (data : List UInt8) : Copy :=
  ⟨exampleKey c, { nonVolatile := true, bootserviceAccess := true }, state, data, nofun⟩

/-- An update has been finished and another one has been cut short. -/
theorem enumerates_interrupted : Enumerates ⟨false, [], none,
    [exampleCopy 'A' varInDeletedAdded [1], exampleCopy 'A' varAdded [2],
      exampleCopy 'B' varInDeletedAdded [3]]⟩ := by
  obtain ⟨g, hg⟩ : ∃ g, g = (⟨false, [], none, [exampleCopy 'A' varInDeletedAdded [1],
    exampleCopy 'A' varAdded [2], exampleCopy 'B' varInDeletedAdded [3]]⟩ : Global) := ⟨_, rfl⟩
  rw [← hg]
  have hkeyAt : ∀ q key, g.keyAt q = some key →
      q = 1 ∧ key = exampleKey 'A' ∨ q = 2 ∧ key = exampleKey 'B' := by
    subst hg
    intro q key h
    match q with
    | 0 => cases h
    | 1 => exact .inl ⟨rfl, (Option.some.inj h).symm⟩
    | 2 => exact .inr ⟨rfl, (Option.some.inj h).symm⟩
    | q + 3 => cases h
  have hhome : ∀ q key, g.keyAt q = some key → g.home key = q := by
    intro q key h
    subst hg
    rcases hkeyAt q key h with ⟨rfl, rfl⟩ | ⟨rfl, rfl⟩ <;> decide
  have hstart : ∀ guid, g.start guid = 1 := by
    subst hg
    exact fun guid => rfl
  refine (enumerates_iff g).1 ⟨fun guid key h => ?_, fun key _ => leads_of_home hhome⟩
  rw [hstart]
  rcases hkeyAt _ key (getVariable_isSome.mp h) with ⟨hq, -⟩ | ⟨hq, -⟩
  · exact hq.ge
  · rw [hq]
    decide

/-- A variable that is only there in deleted transition, in front of an added one, is not returned.
-/
theorem not_enumerates_deleted : ¬ Enumerates ⟨false, [], none,
    [exampleCopy 'A' varInDeletedAdded [1], exampleCopy 'B' varAdded [2]]⟩ := by
  intro h
  have hlarge : LargeEnough ⟨false, [], none,
      [exampleCopy 'A' varInDeletedAdded [1], exampleCopy 'B' varAdded [2]]⟩ 4 := by
    refine ⟨by decide, fun type => ?_⟩
    cases type <;> decide
  obtain ⟨fuel, names, hnames, -, hmem⟩ := h 4 ⟨List.replicate 16 0, rfl⟩ hlarge
  have hreturned : names = [exampleKey 'B'] := by
    match fuel with
    | 0 => cases hnames
    | 1 => cases hnames
    | fuel + 2 => exact (Prod.mk.inj hnames).1.symm
  have hin := (hmem (exampleKey 'A')).mpr (by decide)
  rw [hreturned] at hin
  exact absurd hin (by decide)

end Edk2.VariableService
