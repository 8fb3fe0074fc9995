import Edk2.Dhcp4.OptionFill

/-!
# What the parser returns

The options are collected exactly if their data fits a `UINT16` and no option without data comes to
the first entry before the tag that the entry is for. With more data some write goes behind the
buffer, which is sized by the sum modulo the range of `TotalLen`.
-/

namespace Edk2.Dhcp4

open Halting KeyedData

variable {packet : Dhcp4Packet} {fragments items : List (UInt8 × List UInt8)} {tag : UInt8}
  {context context' : OptionContext}

/-- The entries that are returned, each with its data. -/
def ParsedOptions.entries (parsed : ParsedOptions) : List (UInt8 × ℕ × Option (List UInt8)) :=
  match parsed.optionPoint with
  | none => []
  | some (options, buf) => options.map fun option =>
    (option.tag, option.len, option.data.map fun place => (buf.drop place).take option.len)

/-- One entry for each tag with data, in ascending order, with all its data. -/
def Collects (packet : Dhcp4Packet) (fragments : List (UInt8 × List UInt8)) : Prop :=
  ∃ parsed, dhcpParseOption packet = .ok (.success, some parsed) ∧
    parsed.count = (presentTags fragments).length ∧
    parsed.entries = (presentTags fragments).map fun tag =>
      (tag, (dataOf fragments tag).length, some (dataOf fragments tag))

/-- Of the options that share the first entry, the first one is of the tag that has it. -/
def FirstOwned (fragments : List (UInt8 × List UInt8)) : Prop :=
  ∀ first ∈ (presentTags fragments).head?,
    ∀ item ∈ fragments.find? fun item => item.1 = first ∨ lengths fragments item.1 = 0,
      item.1 = first

lemma dhcpParseOption_fits (hvis : Visits packet fragments) (hfits : Fits fragments) :
    dhcpParseOption packet = .ok (.success, some ⟨(presentTags fragments).length,
      if presentTags fragments = [] then none
      else some ((presentTags fragments).map (optionAt fragments fragments),
        layout (lengths fragments) 0 allTags fragments)⟩) := by
  obtain ⟨optCount, hcnt, hoff⟩ := offsetLoop_counted hfits
  have hfst := (visits_spec steps_dhcpGetOptionLen hvis).2 fun _ => ⟨0, 0⟩
  rw [hcnt, ok_bind] at hfst
  have hsec := (visits_spec steps_dhcpFillOption hvis).2 (filled fragments [])
  unfold dhcpParseOption
  rw [hfst, ok_bind]
  dsimp only
  rw [if_neg (by decide), hoff]
  dsimp only
  by_cases hne : presentTags fragments = []
  · rw [if_pos (by rw [hne]; rfl), if_pos hne, hne]
    rfl
  · have hlen : (presentTags fragments).length ≠ 0 :=
      fun h => hne (List.length_eq_zero_iff.mp h)
    rw [foldlM_fillStep hfits hne rfl, ok_bind] at hsec
    rw [if_neg hlen, if_neg hne, ← filled_nil, hsec, ok_bind]
    rfl

lemma optionAt_entry (htag : tag ∈ presentTags fragments) :
    ∃ item, fragments.find? (fun item => entryOf fragments item.1 = entryOf fragments tag) =
        some item ∧
      optionAt fragments fragments tag =
        ⟨item.1, (dataOf fragments tag).length, some (placeOf fragments tag)⟩ ∧
      ((layout (lengths fragments) 0 allTags fragments).drop (placeOf fragments tag)).take
        (dataOf fragments tag).length = dataOf fragments tag := by
  have hlen := mem_presentTags.mp htag
  obtain ⟨item, hitem⟩ : ∃ item, fragments.find?
      (fun item => entryOf fragments item.1 = entryOf fragments tag) = some item := by
    refine Option.isSome_iff_exists.mp ?_
    by_contra hnone
    rw [Option.not_isSome_iff_eq_none, List.find?_eq_none] at hnone
    refine hlen (List.length_eq_zero_iff.mpr (dataOf_eq_nil fun item hmem hkey => ?_))
    exact absurd (decide_eq_true (congrArg (entryOf fragments) hkey)) (hnone item hmem)
  refine ⟨item, hitem, ?_, ?_⟩
  · unfold optionAt
    rw [hitem]
    rfl
  · have hpla : placeOf fragments tag = startOf (lengths fragments) allTags tag := if_pos hlen
    rw [hpla]
    exact window_layout nodup_allTags (mem_allTags tag) fun _ _ => rfl

lemma entryOf_eq_zero {first : UInt8} {more : List UInt8}
    (hpre : presentTags fragments = first :: more) (t : UInt8) :
    entryOf fragments t = 0 ↔ t = first ∨ lengths fragments t = 0 := by
  grind [List.idxOf_cons_self, List.idxOf_cons_ne, entryOf]

lemma eq_of_entryOf_eq {t : UInt8} (htag : tag ∈ presentTags fragments)
    (hent : entryOf fragments t = entryOf fragments tag) (hpos : entryOf fragments tag ≠ 0) :
    t = tag := by
  grind [entryOf, List.idxOf_inj]

lemma tags_iff_firstOwned :
    (∀ tag ∈ presentTags fragments, (optionAt fragments fragments tag).tag = tag) ↔
      FirstOwned fragments := by
  have hfind : ∀ first more, presentTags fragments = first :: more →
      (fragments.find? fun item => entryOf fragments item.1 = entryOf fragments first) =
        fragments.find? fun item => item.1 = first ∨ lengths fragments item.1 = 0 := by
    intro first more hpre
    have hzero : entryOf fragments first = 0 := (entryOf_eq_zero hpre first).mpr (.inl rfl)
    congr 1
    funext item
    rw [hzero]
    exact decide_eq_decide.mpr (entryOf_eq_zero hpre item.1)
  constructor
  · intro h first hfst item hitem
    obtain ⟨more, hpre⟩ := List.head?_eq_some_iff.mp hfst
    have hmem : first ∈ presentTags fragments := hpre ▸ List.mem_cons_self
    obtain ⟨item', hite', hopt, -⟩ := optionAt_entry hmem
    grind
  · intro h tag htag
    obtain ⟨item, hitem, hopt, -⟩ := optionAt_entry htag
    rw [hopt]
    by_cases hzero : entryOf fragments tag = 0
    · obtain ⟨first, more, hpre⟩ := List.exists_cons_of_ne_nil (List.ne_nil_of_mem htag)
      have hfst : tag = first :=
        ((entryOf_eq_zero hpre tag).mp hzero).resolve_right (mem_presentTags.mp htag)
      subst hfst
      rw [hfind tag more hpre] at hitem
      exact h tag (List.head?_eq_some_iff.mpr ⟨more, hpre⟩) item hitem
    grind [eq_of_entryOf_eq]

lemma collects_iff_of_fits (hvis : Visits packet fragments) (hfits : Fits fragments) :
    Collects packet fragments ↔ FirstOwned fragments := by
  have hent : ParsedOptions.entries ⟨(presentTags fragments).length,
      if presentTags fragments = [] then none
      else some ((presentTags fragments).map (optionAt fragments fragments),
        layout (lengths fragments) 0 allTags fragments)⟩ =
      (presentTags fragments).map fun tag => ((optionAt fragments fragments tag).tag,
        (dataOf fragments tag).length, some (dataOf fragments tag)) := by
    by_cases hnone : presentTags fragments = []
    · rw [if_pos hnone, hnone]
      rfl
    · rw [if_neg hnone]
      unfold ParsedOptions.entries
      dsimp only
      rw [List.map_map]
      refine List.map_congr_left fun tag htag => ?_
      obtain ⟨item, -, hopt, hdata⟩ := optionAt_entry htag
      rw [Function.comp_apply, hopt, Option.map_some, hdata]
  rw [← tags_iff_firstOwned]
  unfold Collects
  rw [dhcpParseOption_fits hvis hfits]
  constructor
  · simp [hent]
  · intro htags
    refine ⟨_, rfl, rfl, hent.trans (List.map_congr_left fun tag htag => ?_)⟩
    rw [htags tag htag]

lemma copyInto_ok {buf buf' data : List UInt8} {offset : ℕ}
    (h : copyInto buf offset data = .ok buf') :
    buf'.length = buf.length ∧ (data ≠ [] → offset + data.length ≤ buf.length) := by
  grind [List.length_append, List.length_take, List.length_drop, copyInto]

lemma fillStep_ok {item : UInt8 × List UInt8} (h : fillStep context item = .ok context') :
    context'.buf.length = context.buf.length ∧
      (item.2 ≠ [] →
        (context.opCount item.1).offset + item.2.length ≤ context.buf.length) ∧
      ∀ tag, (context'.opCount tag).offset =
        if item.1 = tag then ((context.opCount tag).offset + item.2.length) % 2 ^ 16
        else (context.opCount tag).offset := by
  unfold fillStep at h
  dsimp only at h
  split at h
  · cases h
  · obtain ⟨buf, hcopy, hres⟩ := bind_eq_ok.mp h
    obtain ⟨hlen, hins⟩ := copyInto_ok hcopy
    cases hres
    grind

lemma cursor_le (hrun : items.foldlM fillStep context = .ok context')
    (hbuf : context.buf.length < 2 ^ 16) (hoff : (context.opCount tag).offset < 2 ^ 16)
    (hne : dataOf items tag ≠ []) :
    (context.opCount tag).offset + (dataOf items tag).length ≤ context.buf.length := by
  induction items generalizing context with
  | nil => exact absurd rfl hne
  | cons item items ih =>
    rw [List.foldlM_cons] at hrun
    obtain ⟨context₁, hstep, hrun⟩ := bind_eq_ok.mp hrun
    obtain ⟨hlen, hins, hcur⟩ := fillStep_ok hstep
    rw [dataOf_cons] at hne ⊢
    have hcur := hcur tag
    have ih := @ih context₁ hrun (by omega)
    rw [hcur, hlen] at ih
    by_cases htag : item.1 = tag
    · rw [if_pos htag] at hne ih ⊢
      rw [htag] at hins
      rw [List.length_append]
      have hlt : (context.opCount tag).offset + item.2.length < 2 ^ 16 := by
        grind
      rw [Nat.mod_eq_of_lt hlt] at ih
      grind
    grind

/-- Some tag has its data across the last place that a `UINT16` can tell; its data would be written
there. -/
lemma exists_across (hfits : ¬ Fits fragments) :
    ∃ tag, startOf (lengths fragments) allTags tag < 2 ^ 16 ∧
      2 ^ 16 ≤ startOf (lengths fragments) allTags tag + lengths fragments tag := by
  unfold Fits at hfits
  obtain ⟨tag, -, hle, hlt⟩ := @exists_segment _ _ allTags (lengths fragments) (2 ^ 16 - 1)
    nodup_allTags (by rw [sum_lengths]; omega)
  exact ⟨tag, by omega, by omega⟩

lemma not_collects (hvis : Visits packet fragments) (hfits : ¬ Fits fragments) :
    ¬ Collects packet fragments := by
  rintro ⟨parsed, hpar, hcnt, -⟩
  obtain ⟨tag, hsta, hend⟩ := exists_across hfits
  have hpre : presentTags fragments ≠ [] :=
    List.ne_nil_of_mem (mem_presentTags.mpr (by omega : lengths fragments tag ≠ 0))
  have hfst := (visits_spec steps_dhcpGetOptionLen hvis).2 fun _ => ⟨0, 0⟩
  rw [foldlM_countStep fragments _ fun _ => by decide, ok_bind] at hfst
  have hmod : (fun tag => (⟨0, (0 + (dataOf fragments tag).length) % 2 ^ 16⟩ : OptionCount)) =
      fun tag => ⟨0, lengths fragments tag % 2 ^ 16⟩ := by
    funext tag
    rw [Nat.zero_add]
    rfl
  rw [hmod] at hfst
  obtain ⟨optCount, hoff, -, hspec⟩ := @offsetLoop_spec allTags
    (fun tag => ⟨0, lengths fragments tag % 2 ^ 16⟩) (fun tag => lengths fragments tag % 2 ^ 16) 0 0
    nodup_allTags (fun _ _ => rfl) (fun _ => Nat.mod_lt _ (by decide)) (by decide)
  unfold dhcpParseOption at hpar
  rw [hfst, ok_bind] at hpar
  dsimp only at hpar
  rw [if_neg (by decide), hoff] at hpar
  dsimp only at hpar
  split_ifs at hpar with hnum
  · cases hpar
    exact hpre (List.length_eq_zero_iff.mp hcnt.symm)
  · obtain ⟨⟨status, context⟩, hsec, -⟩ := bind_eq_ok.mp hpar
    rw [(visits_spec steps_dhcpFillOption hvis).2] at hsec
    obtain ⟨context', hrun, -⟩ := bind_eq_ok.mp hsec
    have hne : dataOf fragments tag ≠ [] :=
      List.ne_nil_of_length_pos (by unfold lengths at hend hsta; omega)
    have htot : ((allTags.map fun tag => lengths fragments tag % 2 ^ 16).sum) % 2 ^ 16 < 2 ^ 16 :=
      Nat.mod_lt _ (by decide)
    have hcur : (optCount tag).offset = if lengths fragments tag % 2 ^ 16 ≠ 0 then
        startOf (lengths fragments) allTags tag else 0 := by
      rw [hspec tag (mem_allTags tag)]
      split_ifs
      · dsimp only
        rw [Nat.zero_add, startOf_mod, Nat.mod_eq_of_lt hsta]
      · rfl
    have hoff : (optCount tag).offset < 2 ^ 16 := by
      rw [hcur]
      split_ifs <;> omega
    have hle : (optCount tag).offset + lengths fragments tag ≤ _ :=
      cursor_le hrun (by simpa using htot) hoff hne
    grind

/-- An accepted packet is parsed into one entry for each tag with data, exactly if its data fits a
`UINT16` and the first entry gets the tag that it is for. -/
theorem dhcpParseOption_iff (packet : Dhcp4Packet) (fragments : List (UInt8 × List UInt8))
    (hvisits : Visits packet fragments) :
    Collects packet fragments ↔ Fits fragments ∧ FirstOwned fragments := by
  by_cases hfits : Fits fragments
  · grind [collects_iff_of_fits]
  · exact ⟨fun h => absurd h (not_collects hvisits hfits), fun h => absurd h.1 hfits⟩

/-- A packet with these bytes in the option field. -/
def packetOf (option : List UInt8) : Dhcp4Packet where
  option := option
  bootFileName := List.replicate 128 0
  serverName := List.replicate 64 0
  length_bootFileName := List.length_replicate
  length_serverName := List.length_replicate

/-- A message type is collected. -/
theorem dhcpParseOption_messageType :
    Visits (packetOf [53, 1, 5, 255]) [(53, [5])] ∧
      Collects (packetOf [53, 1, 5, 255]) [(53, [5])] := by
  have hvisits : Visits (packetOf [53, 1, 5, 255]) [(53, [5])] := rfl
  have hpresent : presentTags [(53, [5])] = [53] := by decide
  refine ⟨hvisits, (dhcpParseOption_iff _ _ hvisits).mpr ⟨by unfold Fits; decide, ?_⟩⟩
  intro first hfirst item hitem
  grind

/-- The empty option 80 comes before the message type, whose entry then has the tag 80. -/
theorem not_collects_emptyFirst :
    ¬ ∀ packet fragments, Visits packet fragments → Collects packet fragments := by
  intro h
  have hvisits : Visits (packetOf [80, 0, 53, 1, 5, 255]) [(80, []), (53, [5])] := rfl
  have hcollects := h _ _ hvisits
  rw [collects_iff_of_fits hvisits (by unfold Fits; decide)] at hcollects
  have hpresent : presentTags [(80, []), (53, [5])] = [53] := by decide
  unfold FirstOwned at hcollects
  rw [hpresent] at hcollects
  have htag : (80 : UInt8) = 53 :=
    hcollects 53 rfl (80, []) (List.find?_cons_of_pos (by decide))
  exact absurd htag (by decide)

end Edk2.Dhcp4
