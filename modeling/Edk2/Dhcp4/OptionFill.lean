import Mathlib.Data.List.Range
import Edk2.Dhcp4.Option
import Edk2.Lib.KeyedData

/-!
# The table of options

The first pass leaves the length of each tag's data in `Offset`, modulo the range of a `UINT16`. The
loop over the table then gives each tag that has a length its place among these tags and the sum of
the lengths in front of it.
-/

namespace Edk2.Dhcp4

open Halting KeyedData

variable {fragments : List (UInt8 × List UInt8)} {tags : List UInt8} {tag : UInt8}
  {optCount : OptionTable} {len : UInt8 → ℕ} {totalLen optNum : ℕ}

lemma nodup_allTags : allTags.Nodup := by
  refine List.Nodup.map_on ?_ List.nodup_range
  intro m hm n hn h
  rw [List.mem_range] at hm hn
  have hmod := congrArg UInt8.toNat h
  rw [UInt8.toNat_ofNat', UInt8.toNat_ofNat'] at hmod
  change m < 256 at hm
  change n < 256 at hn
  omega

lemma mem_allTags (tag : UInt8) : tag ∈ allTags :=
  List.mem_map.mpr ⟨tag.toNat, List.mem_range.mpr tag.toNat_lt, UInt8.ofNat_toNat⟩

/-- The tags that have a length. -/
def tagsWith (len : UInt8 → ℕ) (tags : List UInt8) : List UInt8 :=
  tags.filter fun tag => len tag ≠ 0

lemma length_tagsWith_le (len : UInt8 → ℕ) : (tagsWith len allTags).length ≤ 2 ^ 8 := by
  refine (List.length_filter_le _ _).trans ?_
  unfold allTags
  rw [List.length_map, List.length_range]
  decide

/-- The context that `DhcpGetOptionLen` leaves. -/
def countStep (optCount : OptionTable) (item : UInt8 × List UInt8) : Except Halt OptionTable :=
  .ok (Function.update optCount item.1
    { optCount item.1 with offset := ((optCount item.1).offset + item.2.length) % 2 ^ 16 })

lemma steps_dhcpGetOptionLen : Steps dhcpGetOptionLen countStep := by
  intro tag len data optCount hlen
  unfold dhcpGetOptionLen countStep
  rw [ok_bind, hlen]

lemma foldlM_countStep (fragments : List (UInt8 × List UInt8)) (optCount : OptionTable)
    (hlt : ∀ tag, (optCount tag).offset < 2 ^ 16) :
    fragments.foldlM countStep optCount = .ok fun tag =>
      ⟨(optCount tag).index, ((optCount tag).offset + (dataOf fragments tag).length) % 2 ^ 16⟩ := by
  induction fragments generalizing optCount with
  | nil =>
    refine congrArg Except.ok (funext fun tag => ?_)
    change optCount tag = ⟨_, ((optCount tag).offset + 0) % 2 ^ 16⟩
    rw [Nat.add_zero, Nat.mod_eq_of_lt (hlt tag)]
  | cons item fragments ih =>
    rw [List.foldlM_cons, countStep, ok_bind, ih]
    · refine congrArg Except.ok (funext fun tag => ?_)
      rw [dataOf_cons, List.length_append]
      by_cases htag : item.1 = tag
      · grind
      · rw [Function.update_of_ne (Ne.symm htag), if_neg htag, List.length_nil, Nat.zero_add]
    · grind

lemma offsetLoop_spec (hnod : tags.Nodup) (htab : ∀ tag ∈ tags, optCount tag = ⟨0, len tag⟩)
    (hlen : ∀ tag, len tag < 2 ^ 16) (htot : totalLen < 2 ^ 16) :
    ∃ optCount', offsetLoop tags optCount totalLen optNum =
        (optCount', (totalLen + (tags.map len).sum) % 2 ^ 16, optNum + (tagsWith len tags).length) ∧
      (∀ tag ∉ tags, optCount' tag = optCount tag) ∧
      ∀ tag ∈ tags, optCount' tag =
        if len tag ≠ 0 then
          ⟨(optNum + (tagsWith len tags).idxOf tag) % 2 ^ 8,
            (totalLen + startOf len tags tag) % 2 ^ 16⟩
        else ⟨0, 0⟩ := by
  induction tags generalizing optCount totalLen optNum with
  | nil =>
    refine ⟨optCount, ?_, fun _ _ => rfl, nofun⟩
    rw [List.map_nil, List.sum_nil, Nat.add_zero, Nat.mod_eq_of_lt htot]
    rfl
  | cons tag tags ih =>
    rw [List.nodup_cons] at hnod
    rw [List.forall_mem_cons] at htab
    have hne : ∀ tag' ∈ tags, tag' ≠ tag := by
      rintro _ hmem rfl
      exact hnod.1 hmem
    have hsta : ∀ tag' ∈ tags,
        startOf len (tag :: tags) tag' = len tag + startOf len tags tag' := by
      intro tag' hmem
      rw [startOf_cons, if_neg (hne tag' hmem).symm]
    unfold offsetLoop
    rw [htab.1, List.map_cons, List.sum_cons]
    dsimp only
    by_cases hzero : len tag = 0
    · have hwith : tagsWith len (tag :: tags) = tagsWith len tags :=
        List.filter_cons_of_neg (by simpa using hzero)
      obtain ⟨optCount', hrun, hoth, hspec⟩ :=
        @ih optCount totalLen optNum hnod.2 htab.2 htot
      rw [if_neg (not_not_intro hzero), hzero, Nat.zero_add, hwith]
      refine ⟨optCount', hrun,
        fun tag' hmem => hoth tag' fun h => hmem (List.mem_cons_of_mem _ h),
        List.forall_mem_cons.mpr ⟨?_, fun tag' hmem => ?_⟩⟩
      · rw [if_neg (not_not_intro hzero), hoth tag hnod.1, htab.1, hzero]
      · rw [hspec tag' hmem, hsta tag' hmem, hzero, Nat.zero_add]
    · have hwith : tagsWith len (tag :: tags) = tag :: tagsWith len tags :=
        List.filter_cons_of_pos (by simpa using hzero)
      have hlt := hlen tag
      have hback : ((totalLen + len tag) % 2 ^ 16 + (2 ^ 16 - len tag)) % 2 ^ 16 =
          (totalLen + 0) % 2 ^ 16 := by omega
      obtain ⟨optCount', hrun, hoth, hspec⟩ :=
        @ih (Function.update optCount tag ⟨optNum % 2 ^ 8, (totalLen + 0) % 2 ^ 16⟩)
          ((totalLen + len tag) % 2 ^ 16) (optNum + 1) hnod.2
          (fun tag' hmem => by rw [Function.update_of_ne (hne tag' hmem), htab.2 tag' hmem])
          (Nat.mod_lt _ (by decide))
      rw [if_pos hzero, hback, hwith]
      refine ⟨optCount', ?_, fun tag' hmem => ?_,
        List.forall_mem_cons.mpr ⟨?_, fun tag' hmem => ?_⟩⟩
      · grind
      · grind
      · grind [Function.update_self, List.idxOf_cons_self, startOf_cons]
      · rw [hspec tag' hmem, hsta tag' hmem, Nat.mod_add_mod, Nat.add_assoc totalLen,
          List.idxOf_cons_ne _ (hne tag' hmem).symm, Nat.add_assoc optNum, Nat.add_comm 1]

end Edk2.Dhcp4

/-!
## Filling the options

The second pass puts the data of each option where the segment of its tag is filled so far. Options
without any data share the first entry, which takes the tag of the first option that comes to it.
-/

namespace Edk2.Dhcp4

open Halting KeyedData

variable {fragments done rest : List (UInt8 × List UInt8)} {tag : UInt8} {data : List UInt8}
  {context : OptionContext}

/-- The context that `DhcpFillOption` leaves. -/
def fillStep (context : OptionContext) (item : UInt8 × List UInt8) : Except Halt OptionContext := do
  let count := context.opCount item.1
  match context.options[count.index]? with
  | none => .error .fault
  | some option =>
    let option :=
      if option.data = none then { option with tag := item.1, data := some count.offset }
      else option
    let buf ← copyInto context.buf count.offset item.2
    return {
      opCount := Function.update context.opCount item.1
        { count with offset := (count.offset + item.2.length) % 2 ^ 16 }
      options := context.options.set count.index
        { option with len := (option.len + item.2.length) % 2 ^ 16 }
      buf := buf }

lemma steps_dhcpFillOption : Steps dhcpFillOption fillStep := by
  intro tag len data context hlen
  unfold dhcpFillOption fillStep
  dsimp only
  cases context.options[(context.opCount tag).index]? with
  | none => rfl
  | some option =>
    rw [← hlen, bind_assoc]
    rfl

/-- How much data each tag has. -/
def lengths (fragments : List (UInt8 × List UInt8)) (tag : UInt8) : ℕ :=
  (dataOf fragments tag).length

/-- The tags with data, in the order of the table. -/
def presentTags (fragments : List (UInt8 × List UInt8)) : List UInt8 :=
  tagsWith (lengths fragments) allTags

/-- The entry that a tag is counted for: tags without data use the first one. -/
def entryOf (fragments : List (UInt8 × List UInt8)) (tag : UInt8) : ℕ :=
  if lengths fragments tag ≠ 0 then (presentTags fragments).idxOf tag else 0

/-- Where the data of a tag goes. -/
def placeOf (fragments : List (UInt8 × List UInt8)) (tag : UInt8) : ℕ :=
  if lengths fragments tag ≠ 0 then startOf (lengths fragments) allTags tag else 0

/-- The data of all options fits a `UINT16`. -/
def Fits (fragments : List (UInt8 × List UInt8)) : Prop :=
  (fragments.flatMap Prod.snd).length < 2 ^ 16

lemma mem_presentTags : tag ∈ presentTags fragments ↔ lengths fragments tag ≠ 0 := by
  unfold presentTags tagsWith
  rw [List.mem_filter]
  simp [mem_allTags]

lemma nodup_presentTags : (presentTags fragments).Nodup := List.Nodup.filter _ nodup_allTags

lemma sum_lengths (fragments : List (UInt8 × List UInt8)) :
    (allTags.map (lengths fragments)).sum = (fragments.flatMap Prod.snd).length :=
  sum_dataOf nodup_allTags fun item _ => mem_allTags item.1

lemma startOf_add_le (len : UInt8 → ℕ) (tag : UInt8) :
    startOf len allTags tag + len tag ≤ (allTags.map len).sum := by
  obtain ⟨pre, post, hspl, hpre, -⟩ := split_keys nodup_allTags (mem_allTags tag)
  rw [hspl, startOf_split hpre, List.map_append, List.sum_append, List.map_cons, List.sum_cons]
  omega

lemma offsetLoop_counted (hfits : Fits fragments) :
    ∃ optCount, fragments.foldlM countStep (fun _ => ⟨0, 0⟩) = .ok optCount ∧
      offsetLoop allTags optCount 0 0 =
        (fun tag => ⟨entryOf fragments tag, placeOf fragments tag⟩,
          (fragments.flatMap Prod.snd).length, (presentTags fragments).length) := by
  have hsum := sum_lengths fragments
  have hlt : ∀ tag, lengths fragments tag < 2 ^ 16 := by
    intro tag
    have hle := startOf_add_le (lengths fragments) tag
    unfold Fits at hfits
    omega
  refine ⟨_, foldlM_countStep fragments _ fun _ => by decide, ?_⟩
  have hmod : (fun tag => (⟨0, (0 + (dataOf fragments tag).length) % 2 ^ 16⟩ : OptionCount)) =
      fun tag => ⟨0, lengths fragments tag⟩ := by
    funext tag
    rw [Nat.zero_add]
    exact congrArg _ (Nat.mod_eq_of_lt (hlt tag))
  rw [hmod]
  obtain ⟨optCount, hrun, -, hspec⟩ := @offsetLoop_spec allTags
    (fun tag => ⟨0, lengths fragments tag⟩) (lengths fragments) 0 0 nodup_allTags
    (fun _ _ => rfl) hlt (by decide)
  rw [hrun, hsum, Nat.zero_add, Nat.zero_add, Nat.mod_eq_of_lt hfits]
  refine Prod.ext (funext fun tag => ?_) rfl
  dsimp only
  rw [hspec tag (mem_allTags tag)]
  unfold entryOf placeOf presentTags
  split_ifs with hzero
  · have hind : (tagsWith (lengths fragments) allTags).idxOf tag < 2 ^ 8 :=
      lt_of_lt_of_le (List.idxOf_lt_length_of_mem (mem_presentTags.mpr hzero))
        (length_tagsWith_le _)
    have hpla := startOf_add_le (lengths fragments) tag
    have hlt : startOf (lengths fragments) allTags tag < 2 ^ 16 := by
      unfold Fits at hfits
      omega
    rw [Nat.zero_add, Nat.zero_add, Nat.mod_eq_of_lt hind, Nat.mod_eq_of_lt hlt]
  · rfl

lemma startOf_first {len : UInt8 → ℕ} {first : UInt8} {tags more : List UInt8}
    (h : tagsWith len tags = first :: more) : startOf len tags first = 0 := by
  induction tags with
  | nil => cases h
  | cons tag tags ih =>
    grind [startOf_cons, tagsWith]

lemma exists_entry (hne : presentTags fragments ≠ []) (tag : UInt8) :
    ∃ owner, (presentTags fragments)[entryOf fragments tag]? = some owner ∧
      entryOf fragments owner = entryOf fragments tag ∧
      placeOf fragments owner = placeOf fragments tag ∧
      (lengths fragments tag ≠ 0 → owner = tag) := by
  by_cases hzero : lengths fragments tag = 0
  · obtain ⟨first, more, hpre⟩ := List.exists_cons_of_ne_nil hne
    have hfst : lengths fragments first ≠ 0 := by
      rw [← mem_presentTags, hpre]
      exact List.mem_cons_self
    refine ⟨first, ?_, ?_, ?_, fun h => absurd hzero h⟩
    · unfold entryOf
      rw [if_neg (not_not_intro hzero), hpre]
      rfl
    · simp [hfst, hpre, List.idxOf_cons_self, entryOf]
      omega
    · simp [hfst, startOf_first hpre, placeOf]
      omega
  · refine ⟨tag, ?_, rfl, rfl, fun _ => rfl⟩
    unfold entryOf
    rw [if_pos hzero]
    exact List.getElem?_idxOf (mem_presentTags.mpr hzero)

lemma set_entry {f g : UInt8 → DhcpOption} {tag owner : UInt8} {option : DhcpOption}
    (hget : (presentTags fragments)[entryOf fragments tag]? = some owner)
    (hoth : ∀ owner ∈ presentTags fragments,
      entryOf fragments owner ≠ entryOf fragments tag → g owner = f owner)
    (hself : g owner = option) :
    ((presentTags fragments).map f).set (entryOf fragments tag) option =
      (presentTags fragments).map g := by
  refine List.ext_getElem? fun i => ?_
  rw [List.getElem?_set, List.getElem?_map, List.getElem?_map, List.length_map]
  by_cases hi : entryOf fragments tag = i
  · grind
  · rw [if_neg hi]
    cases hown : (presentTags fragments)[i]? with
    | none => rfl
    | some owner' =>
      obtain ⟨hlt, hind⟩ := List.getElem?_eq_some_iff.mp hown
      have hmem : owner' ∈ presentTags fragments := List.mem_of_getElem? hown
      have hent : entryOf fragments owner' = i := by
        unfold entryOf
        rw [if_pos (mem_presentTags.mp hmem), ← hind]
        exact nodup_presentTags.idxOf_getElem i hlt
      rw [Option.map_some, Option.map_some, hoth owner' hmem fun h => hi (h.symm.trans hent)]

/-! ### The second pass -/

/-- An entry while the options come in. -/
def optionAt (fragments done : List (UInt8 × List UInt8)) (tag : UInt8) : DhcpOption :=
  match done.find? fun item => entryOf fragments item.1 = entryOf fragments tag with
  | none => ⟨0, 0, none⟩
  | some item => ⟨item.1, lengths done tag, some (placeOf fragments tag)⟩

/-- The context while the options come in. -/
def filled (fragments done : List (UInt8 × List UInt8)) : OptionContext where
  opCount tag := ⟨entryOf fragments tag, placeOf fragments tag + lengths done tag⟩
  options := (presentTags fragments).map (optionAt fragments done)
  buf := layout (lengths fragments) 0 allTags done

lemma lengths_snoc (t : UInt8) :
    lengths (done ++ [(tag, data)]) t = lengths done t + if tag = t then data.length else 0 := by
  unfold lengths
  rw [dataOf_snoc, List.length_append]
  split_ifs <;> rfl

lemma lengths_le (hspl : fragments = done ++ rest) (t : UInt8) :
    lengths done t ≤ lengths fragments t := by
  unfold lengths
  rw [hspl, dataOf_append, List.length_append]
  exact Nat.le_add_right _ _

lemma copyInto_layout (hspl : fragments = done ++ (tag, data) :: rest) :
    copyInto (layout (lengths fragments) 0 allTags done)
        (placeOf fragments tag + lengths done tag) data =
      .ok (layout (lengths fragments) 0 allTags (done ++ [(tag, data)])) := by
  unfold copyInto
  by_cases hemp : data = []
  · rw [if_pos hemp, hemp, layout_snoc_nil]
  · have hsnoc : lengths (done ++ [(tag, data)]) tag ≤ lengths fragments tag :=
      lengths_le (hspl.trans (List.append_assoc done [(tag, data)] rest).symm) tag
    rw [lengths_snoc, if_pos rfl] at hsnoc
    have hpos := List.length_pos_of_ne_nil hemp
    have hpla : placeOf fragments tag = startOf (lengths fragments) allTags tag :=
      if_pos (by omega)
    obtain ⟨hle, hlay⟩ := @layout_snoc _ _ _ done allTags tag data 0 (lengths fragments)
      nodup_allTags (mem_allTags tag) (fun t _ => lengths_le hspl t) hsnoc
    rw [if_neg hemp, hpla, hlay]
    exact if_pos hle

lemma lengths_owner (hfits : Fits fragments) (hspl : fragments = done ++ (tag, data) :: rest)
    {owner : UInt8} (hown : lengths fragments tag ≠ 0 → owner = tag) :
    lengths (done ++ [(tag, data)]) owner = lengths done owner + data.length ∧
      lengths done owner + data.length < 2 ^ 16 := by
  have hle : ∀ t, lengths (done ++ [(tag, data)]) t ≤ lengths fragments t :=
    lengths_le (hspl.trans (List.append_assoc done [(tag, data)] rest).symm)
  have hsnoc : lengths (done ++ [(tag, data)]) owner = lengths done owner + data.length := by
    grind [lengths_snoc]
  have hsum := startOf_add_le (lengths fragments) owner
  rw [sum_lengths] at hsum
  have hmax := hle owner
  unfold Fits at hfits
  omega

lemma optionAt_snoc (hfits : Fits fragments) (hspl : fragments = done ++ (tag, data) :: rest)
    {owner : UInt8} (hent : entryOf fragments owner = entryOf fragments tag)
    (hpla : placeOf fragments owner = placeOf fragments tag)
    (hown : lengths fragments tag ≠ 0 → owner = tag) :
    optionAt fragments (done ++ [(tag, data)]) owner =
      (fun option : DhcpOption => { option with len := (option.len + data.length) % 2 ^ 16 })
        (if (optionAt fragments done owner).data = none then
          { optionAt fragments done owner with
            tag := tag, data := some (placeOf fragments tag + lengths done tag) }
        else optionAt fragments done owner) := by
  obtain ⟨hsnoc, hlt⟩ := lengths_owner hfits hspl hown
  unfold optionAt
  rw [List.find?_append]
  cases hfind : done.find? fun item => entryOf fragments item.1 = entryOf fragments owner with
  | none =>
    have hnone : ∀ t, entryOf fragments t = entryOf fragments owner → lengths done t = 0 := by
      intro t ht
      refine List.length_eq_zero_iff.mpr (dataOf_eq_nil fun item hmem hkey => ?_)
      have hmiss := List.find?_eq_none.mp hfind item hmem
      rw [hkey] at hmiss
      exact absurd (decide_eq_true ht) hmiss
    rw [Option.none_or, List.find?_cons_of_pos (by simpa using hent.symm)]
    dsimp only
    rw [if_pos rfl, hsnoc, hnone owner rfl, hnone tag hent.symm, hpla, Nat.zero_add,
      Nat.mod_eq_of_lt (by omega), Nat.add_zero]
  | some item =>
    simp [Option.some_or, hsnoc]
    omega

lemma placeOf_add_le (fragments : List (UInt8 × List UInt8)) (tag : UInt8) :
    placeOf fragments tag + lengths fragments tag ≤ (fragments.flatMap Prod.snd).length := by
  have hle := startOf_add_le (lengths fragments) tag
  rw [sum_lengths] at hle
  unfold placeOf
  split_ifs with hzero <;> omega

lemma optionAt_snoc_of_ne {owner : UInt8}
    (hne : entryOf fragments owner ≠ entryOf fragments tag) :
    optionAt fragments (done ++ [(tag, data)]) owner = optionAt fragments done owner := by
  have htag : tag ≠ owner := by
    rintro rfl
    exact hne rfl
  unfold optionAt
  rw [List.find?_append, List.find?_cons_of_neg (by simpa using hne.symm), List.find?_nil,
    Option.or_none, lengths_snoc, if_neg htag, Nat.add_zero]

lemma fillStep_filled (hfits : Fits fragments) (hne : presentTags fragments ≠ [])
    (hspl : fragments = done ++ (tag, data) :: rest) :
    fillStep (filled fragments done) (tag, data) =
      .ok (filled fragments (done ++ [(tag, data)])) := by
  obtain ⟨owner, hget, hentr, hpla, hown⟩ := exists_entry hne tag
  have hcnt : Function.update (filled fragments done).opCount tag
      ⟨entryOf fragments tag, (placeOf fragments tag + lengths done tag + data.length) % 2 ^ 16⟩ =
      (filled fragments (done ++ [(tag, data)])).opCount := by
    funext t
    unfold filled
    dsimp only
    rw [lengths_snoc]
    by_cases ht : t = tag
    · subst ht
      have hle := lengths_le (hspl.trans (List.append_assoc done [(t, data)] rest).symm) t
      have hsum := placeOf_add_le fragments t
      rw [lengths_snoc, if_pos rfl] at hle
      unfold Fits at hfits
      rw [Function.update_self, if_pos rfl, Nat.add_assoc, Nat.mod_eq_of_lt (by omega)]
    · rw [Function.update_of_ne ht, if_neg (Ne.symm ht), Nat.add_zero]
  have hopt := @set_entry _ (optionAt fragments done) _ _ _ _ hget
    (fun _ _ => optionAt_snoc_of_ne) (optionAt_snoc hfits hspl hentr hpla hown)
  have hent : (filled fragments done).options[entryOf fragments tag]? =
      some (optionAt fragments done owner) := by
    unfold filled
    rw [List.getElem?_map, hget, Option.map_some]
  have hcopy : copyInto (filled fragments done).buf
      (placeOf fragments tag + lengths done tag) data =
      .ok (filled fragments (done ++ [(tag, data)])).buf := copyInto_layout hspl
  unfold fillStep
  change (match (filled fragments done).options[entryOf fragments tag]? with
    | none => _
    | some option => _) = _
  rw [hent]
  change (copyInto (filled fragments done).buf (placeOf fragments tag + lengths done tag) data >>=
    fun buf => .ok (⟨_, _, buf⟩ : OptionContext)) = _
  rw [hcopy, ok_bind]
  exact congrArg Except.ok (congrArg₂ (OptionContext.mk · · _) hcnt hopt)

lemma foldlM_fillStep (hfits : Fits fragments) (hne : presentTags fragments ≠ [])
    (hspl : fragments = done ++ rest) :
    rest.foldlM fillStep (filled fragments done) = .ok (filled fragments fragments) := by
  induction rest generalizing done with
  | nil =>
    rw [List.append_nil] at hspl
    rw [hspl]
    rfl
  | cons item rest ih =>
    grind [fillStep_filled, ok_bind]

lemma filled_nil (fragments : List (UInt8 × List UInt8)) :
    filled fragments [] =
      ⟨fun tag => ⟨entryOf fragments tag, placeOf fragments tag⟩,
        List.replicate (presentTags fragments).length ⟨0, 0, none⟩,
        List.replicate (fragments.flatMap Prod.snd).length 0⟩ := by
  have hopt : (filled fragments []).options =
      List.replicate (presentTags fragments).length ⟨0, 0, none⟩ :=
    List.eq_replicate_iff.mpr ⟨List.length_map _, by simp [filled, optionAt]⟩
  have hbuf : (filled fragments []).buf = List.replicate (fragments.flatMap Prod.snd).length 0 := by
    unfold filled
    rw [layout_nil, sum_lengths]
  exact congrArg₂ (OptionContext.mk _) hopt hbuf

end Edk2.Dhcp4
