import Edk2.Lib.Firsts
import Edk2.Variable.DxeSafe

/-!
# What a reclaim does to the variables

A reclaim keeps the added variables and adds the first copy in deleted transition of each other name
again. A search takes the last copy in deleted transition. The results agree if the variables are
`Unambiguous`.
-/

namespace Edk2.VariableDxe

open Variable Firsts

variable {vars : List StoredVariable} {v w first last : StoredVariable} {rt : Bool}
  {k : ℕ × List UInt8}

/-- The name and the GUID of a variable. -/
def keyOf (v : StoredVariable) : ℕ × List UInt8 := (v.guid, v.name)

def isAdded (v : StoredVariable) : Bool := v.state = varAdded

def isInDeleted (v : StoredVariable) : Bool := v.state = varInDeletedAdded

/-- The variable may be accessed, at runtime if `rt`. -/
def isSeen (rt : Bool) (v : StoredVariable) : Bool := !rt || hasRuntimeAccess v.attributes

/-- The variable may be accessed, and is one of the name and GUID that are looked for. -/
def matchesKey (rt : Bool) (key : Option (ℕ × List UInt8)) (v : StoredVariable) : Bool :=
  isSeen rt v && (match key with
    | some k => keyOf v = k
    | none => true)

/-- What a search finds. -/
def found (test : StoredVariable → Bool) (vars : List StoredVariable) : Option StoredVariable :=
  pick (fun v => isAdded v && test v) (fun v => isInDeleted v && test v) vars

/-- The data and the attributes of a variable. -/
def value (v : StoredVariable) : List UInt8 × ℕ := (v.data, v.attributes)

/-- The variables in deleted transition that a reclaim adds again. -/
def promotedVars (vars : List StoredVariable) : List StoredVariable :=
  firsts keyOf isInDeleted ((vars.filter isAdded).map keyOf) vars

/-- The variables after a reclaim. -/
def compacted (vars : List StoredVariable) : List StoredVariable :=
  (vars.filter isAdded ++ promotedVars vars).map asAdded

/-- The copies with the given name and GUID. -/
def copies (test : StoredVariable → Bool) (k : ℕ × List UInt8) (vars : List StoredVariable) :
    List StoredVariable :=
  vars.filter fun v => test v && keyOf v = k

/-- A name has at most one added copy; if the copy that counts is not to be accessed at runtime, no
copy is; without an added copy the first and the last copy in deleted transition agree. Where no added
variable is to be accessed, the first and the last variable in deleted transition agree. -/
structure Unambiguous (vars : List StoredVariable) : Prop where
  single : ∀ k, (copies isAdded k vars).length ≤ 1
  seen : ∀ k w, found (matchesKey false (some k)) vars = some w →
    hasRuntimeAccess w.attributes = false → ∀ v ∈ vars, isAdded v = true ∨ isInDeleted v = true →
      keyOf v = k → hasRuntimeAccess v.attributes = false
  same : ∀ k first last, copies isAdded k vars = [] →
    (copies isInDeleted k vars).head? = some first →
      (copies isInDeleted k vars).getLast? = some last → value first = value last
  unnamed : ∀ rt first last, (∀ v ∈ vars, isAdded v = true → isSeen rt v = false) →
    (vars.filter fun v => isInDeleted v && isSeen rt v).head? = some first →
      (vars.filter fun v => isInDeleted v && isSeen rt v).getLast? = some last →
        value first = value last

lemma pick_eq_or {α : Type} {added deleted : α → Bool} {l : List α} :
    pick added deleted l = (l.find? added).or (l.filter deleted).getLast? := by
  unfold pick
  cases l.find? added <;> rfl

lemma found_compacted {test : StoredVariable → Bool} (htest : ∀ v, test (asAdded v) = test v) :
    (found test (compacted vars)).map value =
      ((vars.find? fun v => isAdded v && test v).or ((promotedVars vars).find? test)).map value := by
  have hadd : ∀ v, isAdded (asAdded v) = true := fun _ => rfl
  have hdel : (compacted vars).filter (fun v => isInDeleted v && test v) = [] := by
    apply List.filter_eq_nil_iff.mpr
    intro v hv
    obtain ⟨u, -, rfl⟩ := List.mem_map.mp hv
    exact nofun
  unfold found
  rw [pick_eq_or, hdel, List.getLast?_nil, Option.or_none]
  unfold compacted
  rw [List.find?_map, Function.comp_def]
  simp only [hadd, Bool.true_and, htest]
  rw [List.find?_append, List.find?_filter, Option.map_map]
  simp only [Bool.decide_and, Bool.decide_eq_true]
  rfl

/-- A search finds the same before and after a reclaim exactly if it finds the same among the
variables in deleted transition. -/
lemma found_eq_iff {test : StoredVariable → Bool} (htest : ∀ v, test (asAdded v) = test v) :
    (found test vars).map value = (found test (compacted vars)).map value ↔
      ((vars.find? fun v => isAdded v && test v) = none →
        (vars.filter fun v => isInDeleted v && test v).getLast?.map value =
          ((promotedVars vars).find? test).map value) := by
  rw [found_compacted htest]
  unfold found
  rw [pick_eq_or]
  cases vars.find? fun v => isAdded v && test v with
  | some v => simp
  | none => simp

lemma matchesKey_asAdded (rt : Bool) (key : Option (ℕ × List UInt8)) (v : StoredVariable) :
    matchesKey rt key (asAdded v) = matchesKey rt key v := rfl

lemma filter_promotedVars : (promotedVars vars).filter (fun v => keyOf v = k) =
    if copies isAdded k vars = [] then (copies isInDeleted k vars).take 1 else [] := by
  have hseen : k ∈ (vars.filter isAdded).map keyOf ↔ copies isAdded k vars ≠ [] := by
    unfold copies
    rw [List.mem_map]
    constructor
    · rintro ⟨v, hv, rfl⟩
      obtain ⟨hv, hadd⟩ := List.mem_filter.mp hv
      exact List.ne_nil_of_mem (List.mem_filter.mpr ⟨hv, by simp [hadd]⟩)
    · intro hne
      obtain ⟨v, hv⟩ := List.exists_mem_of_ne_nil _ hne
      obtain ⟨hv, htest⟩ := List.mem_filter.mp hv
      obtain ⟨hadd, hkey⟩ := Bool.and_eq_true_iff.mp htest
      exact ⟨v, List.mem_filter.mpr ⟨hv, hadd⟩, of_decide_eq_true hkey⟩
  unfold promotedVars
  rw [filter_firsts]
  by_cases hnil : copies isAdded k vars = []
  · rw [if_neg fun h => hseen.mp h hnil, if_pos hnil]
    rfl
  · rw [if_pos (hseen.mpr hnil), if_neg hnil]

lemma find_promotedVars : (promotedVars vars).find? (matchesKey rt (some k)) =
    if copies isAdded k vars = [] then ((copies isInDeleted k vars).take 1).find? (isSeen rt)
    else none := by
  have hfind : (promotedVars vars).find? (matchesKey rt (some k)) =
      ((promotedVars vars).filter fun v => keyOf v = k).find? (isSeen rt) := by
    rw [List.find?_filter]
    congr 1
    funext v
    simp only [Bool.decide_and, Bool.decide_eq_true]
    exact Bool.and_comm _ _
  rw [hfind, filter_promotedVars]
  split_ifs <;> rfl

/-! ### Searches for a name -/

lemma filter_matchesKey (test : StoredVariable → Bool) :
    vars.filter (fun v => test v && matchesKey rt (some k) v) =
      (copies test k vars).filter (isSeen rt) := by
  unfold copies
  rw [List.filter_filter]
  congr 1
  funext v
  change (test v && (isSeen rt v && decide (keyOf v = k))) = _
  cases test v <;> cases isSeen rt v <;> rfl

lemma find_matchesKey_eq_none :
    (vars.find? fun v => isAdded v && matchesKey rt (some k) v) = none ↔
      ∀ v ∈ copies isAdded k vars, isSeen rt v = false := by
  rw [← List.head?_filter, filter_matchesKey, List.head?_eq_none_iff, List.filter_eq_nil_iff]
  simp only [Bool.not_eq_true]

lemma found_key_iff : (found (matchesKey rt (some k)) vars).map value =
      (found (matchesKey rt (some k)) (compacted vars)).map value ↔
    ((∀ v ∈ copies isAdded k vars, isSeen rt v = false) →
      ((copies isInDeleted k vars).filter (isSeen rt)).getLast?.map value =
        (if copies isAdded k vars = [] then ((copies isInDeleted k vars).take 1).find? (isSeen rt)
          else none).map value) := by
  rw [found_eq_iff (matchesKey_asAdded rt (some k)), find_matchesKey_eq_none, filter_matchesKey,
    find_promotedVars]

lemma found_key_eq : found (matchesKey false (some k)) vars =
    (copies isAdded k vars).head?.or (copies isInDeleted k vars).getLast? := by
  have hall : ∀ l : List StoredVariable, l.filter (isSeen false) = l := fun l =>
    List.filter_eq_self.mpr fun _ _ => rfl
  unfold found
  rw [pick_eq_or, ← List.head?_filter, filter_matchesKey, filter_matchesKey, hall, hall]

lemma getLast?_filter_of_last {test : StoredVariable → Bool} {l : List StoredVariable}
    (h : l.getLast? = some last) (htest : test last = true) :
    (l.filter test).getLast? = some last := by
  obtain ⟨init, rfl⟩ := List.getLast?_eq_some_iff.mp h
  rw [List.filter_append, List.filter_cons_of_pos htest, List.filter_nil,
    List.getLast?_append, List.getLast?_singleton]
  rfl

lemma mem_of_live {v : StoredVariable} (hv : v ∈ vars)
    (h : isAdded v = true ∨ isInDeleted v = true) :
    v ∈ copies isAdded (keyOf v) vars ∨ v ∈ copies isInDeleted (keyOf v) vars := by
  rcases h with h | h
  · exact .inl (List.mem_filter.mpr ⟨hv, by simp [h]⟩)
  · exact .inr (List.mem_filter.mpr ⟨hv, by simp [h]⟩)

lemma seen_of_found (hsin : (copies isAdded k vars).length ≤ 1)
    (hsame : ∀ first last, copies isAdded k vars = [] →
      (copies isInDeleted k vars).head? = some first →
        (copies isInDeleted k vars).getLast? = some last → value first = value last)
    (h : (found (matchesKey true (some k)) vars).map value =
      (found (matchesKey true (some k)) (compacted vars)).map value)
    (hw : found (matchesKey false (some k)) vars = some w)
    (hnot : hasRuntimeAccess w.attributes = false) (hv : v ∈ vars)
    (hlive : isAdded v = true ∨ isInDeleted v = true) (hkey : keyOf v = k) :
    hasRuntimeAccess v.attributes = false := by
  subst hkey
  rw [found_key_iff] at h
  rw [found_key_eq] at hw
  have hnone : (∀ a ∈ copies isAdded (keyOf v) vars, isSeen true a = false) ∧
      (copies isInDeleted (keyOf v) vars).filter (isSeen true) = [] := by
    cases hadd : copies isAdded (keyOf v) vars with
    | cons a rest =>
      rw [hadd] at hw hsin h
      cases hw
      -- the added copy is the only one
      obtain rfl : rest = [] := List.eq_nil_of_length_eq_zero (by simpa using hsin)
      have hall : ∀ b ∈ [w], isSeen true b = false := by
        intro b hb
        rw [List.mem_singleton.mp hb]
        exact hnot
      refine ⟨hall, ?_⟩
      have hlast := h hall
      rw [if_neg (List.cons_ne_nil _ _)] at hlast
      exact List.getLast?_eq_none_iff.mp (Option.map_eq_none_iff.mp hlast)
    | nil =>
      rw [hadd] at hw h
      have hall : ∀ b ∈ ([] : List StoredVariable), isSeen true b = false := by simp
      refine ⟨hall, ?_⟩
      have hlast := h hall
      rw [if_pos rfl] at hlast
      cases hdel : copies isInDeleted (keyOf v) vars with
      | nil => rfl
      | cons first rest =>
        have hw : (copies isInDeleted (keyOf v) vars).getLast? = some w := hw
        have hval := hsame first w hadd (by rw [hdel]; rfl) hw
        have hfst : isSeen true first = false := by
          have hatt : first.attributes = w.attributes := congrArg Prod.snd hval
          unfold isSeen
          rw [hatt, hnot]
          rfl
        rw [hdel] at hlast
        have htake : ((first :: rest).take 1).find? (isSeen true) = none := by
          simp [hfst]
        rw [htake] at hlast
        exact List.getLast?_eq_none_iff.mp (Option.map_eq_none_iff.mp hlast)
  rcases mem_of_live hv hlive with hmem | hmem
  · exact hnone.1 v hmem
  · have hnotS := List.filter_eq_nil_iff.mp hnone.2 v hmem
    rw [Bool.not_eq_true] at hnotS
    exact hnotS

lemma found_key_of_unambiguous (h : Unambiguous vars) :
    (found (matchesKey rt (some k)) vars).map value =
      (found (matchesKey rt (some k)) (compacted vars)).map value := by
  rw [found_key_iff]
  intro hnone
  have hseen : ∀ w, found (matchesKey false (some k)) vars = some w → isSeen rt w = false →
      (copies isInDeleted k vars).filter (isSeen rt) = [] := by
    intro w hw hnot
    cases rt with
    | false => cases hnot
    | true =>
      apply List.filter_eq_nil_iff.mpr
      intro v hv
      obtain ⟨hv, htest⟩ := List.mem_filter.mp hv
      obtain ⟨hdel, hkey⟩ := Bool.and_eq_true_iff.mp htest
      have hv := h.seen k w hw hnot v hv (.inr hdel) (of_decide_eq_true hkey)
      unfold isSeen
      rw [hv]
      decide
  cases hadd : copies isAdded k vars with
  | cons a rest =>
    grind [found_key_eq, List.mem_cons_self]
  | nil =>
    rw [if_pos rfl]
    cases hdel : copies isInDeleted k vars with
    | nil => rfl
    | cons first rest =>
      obtain ⟨last, hlast⟩ : ∃ last, (copies isInDeleted k vars).getLast? = some last := by
        rw [hdel]
        exact ⟨_, List.getLast?_cons⟩
      have hval := h.same k first last hadd (by rw [hdel]; rfl) hlast
      have hfnd : found (matchesKey false (some k)) vars = some last := by
        rw [found_key_eq, hadd, hlast]
        rfl
      have hatt : isSeen rt first = isSeen rt last := by
        unfold isSeen
        rw [show first.attributes = last.attributes from congrArg Prod.snd hval]
      rw [← hdel]
      by_cases hlas : isSeen rt last = true
      · grind [getLast?_filter_of_last]
      · grind

/-! ### Searches for any variable -/

lemma find_promotedVars_none (hsame : ∀ k first last, copies isAdded k vars = [] →
      (copies isInDeleted k vars).head? = some first →
        (copies isInDeleted k vars).getLast? = some last → value first = value last)
    (hseen : ∀ k w, found (matchesKey false (some k)) vars = some w →
      hasRuntimeAccess w.attributes = false → ∀ v ∈ vars, isAdded v = true ∨ isInDeleted v = true →
        keyOf v = k → hasRuntimeAccess v.attributes = false)
    (hadd : ∀ v ∈ vars, isAdded v = true → isSeen rt v = false) :
    (promotedVars vars).find? (isSeen rt) =
      (vars.filter fun v => isInDeleted v && isSeen rt v).head? := by
  cases hhead : (vars.filter fun v => isInDeleted v && isSeen rt v).head? with
  | none =>
    rw [List.head?_eq_none_iff, List.filter_eq_nil_iff] at hhead
    apply List.find?_eq_none.mpr
    intro v hv htest
    obtain ⟨hv, hdel⟩ := List.mem_filter.mp (firsts_sublist.subset hv)
    exact hhead v hv (by rw [hdel, htest]; rfl)
  | some v =>
    obtain ⟨hv, htest⟩ := List.mem_filter.mp (List.mem_of_head? hhead)
    obtain ⟨hdel, hsee⟩ := Bool.and_eq_true_iff.mp htest
    have hnone : ∀ w, found (matchesKey false (some (keyOf v))) vars = some w →
        isSeen rt w = true := by
      intro w hw
      cases rt with
      | false => rfl
      | true =>
        rw [← Bool.not_eq_false]
        intro hnot
        have hnotV := hseen (keyOf v) w hw hnot v hv (.inr hdel) rfl
        rw [isSeen, hnotV] at hsee
        cases hsee
    have hcop : copies isAdded (keyOf v) vars = [] := by
      cases hlist : copies isAdded (keyOf v) vars with
      | nil => rfl
      | cons a rest =>
        have hfnd : found (matchesKey false (some (keyOf v))) vars = some a := by
          rw [found_key_eq, hlist]
          rfl
        have ha : a ∈ copies isAdded (keyOf v) vars := by
          rw [hlist]
          exact List.mem_cons_self
        obtain ⟨ha, haTe⟩ := List.mem_filter.mp ha
        have hnotA := hadd a ha (Bool.and_eq_true_iff.mp haTe).1
        rw [hnone a hfnd] at hnotA
        cases hnotA
    apply find_firsts hhead
    · intro hmem
      obtain ⟨a, ha, hkey⟩ := List.mem_map.mp hmem
      obtain ⟨ha, haTe⟩ := List.mem_filter.mp ha
      have hcopy : a ∈ copies isAdded (keyOf v) vars :=
        List.mem_filter.mpr ⟨ha, by simp [haTe, hkey]⟩
      rw [hcop] at hcopy
      cases hcopy
    · intro first hfst
      have hfst : (copies isInDeleted (keyOf v) vars).head? = some first := hfst
      obtain ⟨last, hlast⟩ : ∃ last, (copies isInDeleted (keyOf v) vars).getLast? = some last := by
        cases hlist : copies isInDeleted (keyOf v) vars with
        | nil =>
          rw [hlist] at hfst
          cases hfst
        | cons a rest => exact ⟨_, List.getLast?_cons⟩
      have hval := hsame _ first last hcop hfst hlast
      have hlas := hnone last (by rw [found_key_eq, hcop, hlast]; rfl)
      unfold isSeen at hlas ⊢
      rwa [show first.attributes = last.attributes from congrArg Prod.snd hval]

lemma find_none_eq_none : (vars.find? fun v => isAdded v && matchesKey rt none v) = none ↔
    ∀ v ∈ vars, isAdded v = true → isSeen rt v = false := by
  rw [List.find?_eq_none]
  constructor
  · grind [matchesKey]
  · intro h v hv htest
    obtain ⟨hadd, hmat⟩ := Bool.and_eq_true_iff.mp htest
    have hseen := (Bool.and_eq_true_iff.mp hmat).1
    rw [h v hv hadd] at hseen
    cases hseen

lemma found_none_iff (hsame : ∀ k first last, copies isAdded k vars = [] →
      (copies isInDeleted k vars).head? = some first →
        (copies isInDeleted k vars).getLast? = some last → value first = value last)
    (hseen : ∀ k w, found (matchesKey false (some k)) vars = some w →
      hasRuntimeAccess w.attributes = false → ∀ v ∈ vars, isAdded v = true ∨ isInDeleted v = true →
        keyOf v = k → hasRuntimeAccess v.attributes = false) :
    (found (matchesKey rt none) vars).map value =
        (found (matchesKey rt none) (compacted vars)).map value ↔
      ((∀ v ∈ vars, isAdded v = true → isSeen rt v = false) →
        (vars.filter fun v => isInDeleted v && isSeen rt v).getLast?.map value =
          (vars.filter fun v => isInDeleted v && isSeen rt v).head?.map value) := by
  have hmat : (fun v => isInDeleted v && matchesKey rt none v) =
      fun v => isInDeleted v && isSeen rt v := by
    funext v
    rw [matchesKey, Bool.and_true]
  have hpro : matchesKey rt none = isSeen rt := by
    funext v
    exact Bool.and_true _
  rw [found_eq_iff (matchesKey_asAdded rt none), find_none_eq_none, hmat]
  constructor
  · grind [find_promotedVars_none]
  · grind [find_promotedVars_none]

lemma length_filter_compacted : ((compacted vars).filter fun v => keyOf v = k).length =
    (copies isAdded k vars).length +
      (if copies isAdded k vars = [] then (copies isInDeleted k vars).take 1 else []).length := by
  have hmap : (compacted vars).filter (fun v => keyOf v = k) =
      ((vars.filter isAdded ++ promotedVars vars).filter fun v => keyOf v = k).map asAdded := by
    unfold compacted
    rw [List.filter_map]
    rfl
  have hadd : (vars.filter isAdded).filter (fun v => keyOf v = k) = copies isAdded k vars := by
    grind [List.filter_filter, copies, Bool.and_comm]
  rw [hmap, List.length_map, List.filter_append, List.length_append, hadd, filter_promotedVars]

lemma one_copy_iff : (∀ v ∈ compacted vars,
      ((compacted vars).filter fun w => keyOf w = keyOf v).length = 1) ↔
    ∀ k, (copies isAdded k vars).length ≤ 1 := by
  constructor
  · intro h k
    by_contra hmany
    have hne : copies isAdded k vars ≠ [] := by
      intro hnil
      rw [hnil] at hmany
      exact hmany (Nat.zero_le _)
    obtain ⟨v, hv⟩ := List.exists_mem_of_ne_nil _ hne
    obtain ⟨hmem, htest⟩ := List.mem_filter.mp hv
    obtain ⟨hadd, hkey⟩ := Bool.and_eq_true_iff.mp htest
    have hone := h (asAdded v) (List.mem_map_of_mem
      (List.mem_append_left _ (List.mem_filter.mpr ⟨hmem, hadd⟩)))
    have hkey : keyOf (asAdded v) = k := of_decide_eq_true hkey
    rw [hkey, length_filter_compacted] at hone
    omega
  · intro h v hv
    have hpos : 0 < ((compacted vars).filter fun w => keyOf w = keyOf v).length :=
      List.length_pos_of_mem (List.mem_filter.mpr ⟨hv, by simp⟩)
    have hle := h (keyOf v)
    rw [length_filter_compacted] at hpos ⊢
    have htake : ((copies isInDeleted (keyOf v) vars).take 1).length ≤ 1 := by
      rw [List.length_take]
      exact Nat.min_le_left _ _
    by_cases hnil : copies isAdded (keyOf v) vars = []
    · grind
    · grind

/-- Reclaiming keeps all searches and leaves one copy of each name exactly if the variables are
unambiguous. -/
lemma unambiguous_iff : Unambiguous vars ↔
    (∀ rt, (∀ v ∈ vars, isAdded v = true ∨ isInDeleted v = true →
        (found (matchesKey rt (some (keyOf v))) vars).map value =
          (found (matchesKey rt (some (keyOf v))) (compacted vars)).map value) ∧
      (found (matchesKey rt none) vars).map value =
        (found (matchesKey rt none) (compacted vars)).map value) ∧
      ∀ v ∈ compacted vars, ((compacted vars).filter fun w => keyOf w = keyOf v).length = 1 := by
  constructor
  · intro h
    refine ⟨fun rt => ⟨fun v _ _ => found_key_of_unambiguous h, ?_⟩, one_copy_iff.mpr h.single⟩
    rw [found_none_iff h.same h.seen]
    intro hadd
    cases hlist : vars.filter fun v => isInDeleted v && isSeen rt v with
    | nil => rfl
    | cons first rest =>
      obtain ⟨last, hlast⟩ : ∃ last, (first :: rest).getLast? = some last := ⟨_, List.getLast?_cons⟩
      rw [hlast, Option.map_some, ← h.unnamed rt first last hadd (by rw [hlist]; rfl)
        (by rw [hlist]; exact hlast)]
      rfl
  · rintro ⟨hfnd, hone⟩
    have hsin := one_copy_iff.mp hone
    have hsame : ∀ k first last, copies isAdded k vars = [] →
        (copies isInDeleted k vars).head? = some first →
          (copies isInDeleted k vars).getLast? = some last → value first = value last := by
      intro k first last hadd hfst hlast
      obtain ⟨hmem, htest⟩ := List.mem_filter.mp (List.mem_of_head? hfst)
      obtain ⟨hdel, hkey⟩ := Bool.and_eq_true_iff.mp htest
      have heq := (hfnd false).1 first hmem (.inr hdel)
      rw [of_decide_eq_true hkey, found_key_iff] at heq
      have heq := heq (by rw [hadd]; simp)
      have hall : (copies isInDeleted k vars).filter (isSeen false) = copies isInDeleted k vars :=
        List.filter_eq_self.mpr fun _ _ => rfl
      rw [if_pos hadd, hall, hlast] at heq
      have htake : ((copies isInDeleted k vars).take 1).find? (isSeen false) = some first := by
        cases hlist : copies isInDeleted k vars with
        | nil =>
          rw [hlist] at hfst
          cases hfst
        | cons a rest =>
          rw [hlist] at hfst
          cases hfst
          rfl
      rw [htake] at heq
      exact (Option.some.inj heq).symm
    have hseen : ∀ k w, found (matchesKey false (some k)) vars = some w →
        hasRuntimeAccess w.attributes = false → ∀ v ∈ vars,
          isAdded v = true ∨ isInDeleted v = true → keyOf v = k →
            hasRuntimeAccess v.attributes = false := by
      intro k w hw hnot v hv hlive hkey
      refine seen_of_found (hsin k) (hsame k) ?_ hw hnot hv hlive hkey
      rw [← hkey]
      exact (hfnd true).1 v hv hlive
    refine ⟨hsin, hseen, hsame, ?_⟩
    intro rt first last hadd hfst hlast
    have heq := (found_none_iff hsame hseen).mp (hfnd rt).2 hadd
    rw [hfst, hlast] at heq
    exact (Option.some.inj heq).symm

end Edk2.VariableDxe
