import Edk2.PropertiesTable.Layout

/-!
# Splitting the whole table

What sorting, enforcing and merging keep, and when the table is separated as intended: exactly if
every entry fills its slots, and no code lies in an entry of a type that is made non-executable
afterwards.
-/

namespace Edk2.PropertiesTable

open Edk2.Pool (MemoryType efiRuntimeServicesCode efiRuntimeServicesData)

variable {p : Properties} {a : ℕ} {d e : EfiMemoryDescriptor}
  {l l' map : List EfiMemoryDescriptor} {buffer : Slots EfiMemoryDescriptor}

lemma sortPass_perm (x : EfiMemoryDescriptor) (l : List EfiMemoryDescriptor) :
    ((sortPass x l).1 :: (sortPass x l).2).Perm (x :: l) := by
  induction l generalizing x with
  | nil => exact List.Perm.refl _
  | cons y l ih =>
    grind [sortPass, List.Perm.swap]

lemma sortMemoryMap_perm (n : ℕ) (l : List EfiMemoryDescriptor) : (sortMemoryMap n l).Perm l := by
  induction n generalizing l with
  | zero => exact List.Perm.refl _
  | succ n ih =>
    cases l with
    | nil => exact List.Perm.refl _
    | cons x l => exact ((ih _).cons _).trans (sortPass_perm x l)

lemma describes_perm (h : l.Perm l') (a : ℕ) : (describes l a).Perm (describes l' a) :=
  (h.filter _).map _

/-- What `EnforceMemoryMapAttribute` makes of a description. -/
def enforceLabel (x : MemoryType × BitVec 64) : MemoryType × BitVec 64 :=
  if enforced x.1 then (x.1, x.2 ||| efiMemoryXp) else x

lemma describes_enforce (l : List EfiMemoryDescriptor) (a : ℕ) :
    describes (l.map enforceMemoryMapAttribute) a = (describes l a).map enforceLabel := by
  induction l with
  | nil => rfl
  | cons d l ih =>
    have hhas : (enforceMemoryMapAttribute d).Has a ↔ d.Has a := by
      unfold enforceMemoryMapAttribute
      split <;> rfl
    have hlab : ((enforceMemoryMapAttribute d).type, (enforceMemoryMapAttribute d).attr) =
        enforceLabel (d.type, d.attr) := by
      unfold enforceMemoryMapAttribute enforceLabel
      split <;> rfl
    rw [List.map_cons, describes_cons, describes_cons, ih, hlab]
    simp only [hhas]
    split <;> rfl

lemma describes_mergeFrom (x : EfiMemoryDescriptor) (hx : x.stop < 2 ^ 64)
    (hl : ∀ d ∈ l, d.stop < 2 ^ 64) (a : ℕ) :
    describes (mergeFrom x l) a = describes (x :: l) a := by
  induction l generalizing x with
  | nil => rfl
  | cons y l ih =>
    have hy := hl y (by simp)
    have hrest : ∀ d ∈ l, d.stop < 2 ^ 64 := fun d hd => hl d (by simp [hd])
    rw [mergeFrom]
    split_ifs with hmer
    · obtain ⟨htype, hattr, hend⟩ := hmer
      rw [physicalEnd_eq hx] at hend
      have hpag : x.numberOfPages + y.numberOfPages < 2 ^ 64 := by
        unfold EfiMemoryDescriptor.stop at hx hy hend
        omega
      rw [u64_of_lt hpag]
      generalize hm : ({ x with numberOfPages := x.numberOfPages + y.numberOfPages } :
        EfiMemoryDescriptor) = m
      have hsta : m.physicalStart = x.physicalStart := by rw [← hm]
      have hlab : (m.type, m.attr) = (x.type, x.attr) := by rw [← hm]
      have hstop : m.stop = y.stop := by
        grind [Nat.add_mul, Nat.add_assoc, EfiMemoryDescriptor.stop]
      have hle : x.physicalStart ≤ x.stop := Nat.le_add_right _ _
      have hley : y.physicalStart ≤ y.stop := Nat.le_add_right _ _
      have hmst : m.stop < 2 ^ 64 := by rw [hstop]; exact hy
      -- the merged entry describes what the two describe, and no address is in both
      have hhas : m.Has a ↔ x.Has a ∨ y.Has a := by
        unfold EfiMemoryDescriptor.Has
        omega
      have hapa : x.Has a → ¬ y.Has a := by
        unfold EfiMemoryDescriptor.Has
        omega
      rw [ih m hmst hrest, describes_cons, describes_cons, describes_cons, hlab, htype, hattr]
      by_cases hxa : x.Has a
      · rw [if_pos (hhas.mpr (.inl hxa)), if_pos hxa, if_neg (hapa hxa)]
      · grind
    · rw [describes_cons, describes_cons, ih y hy hrest]

lemma describes_mergeMemoryMap (hl : ∀ d ∈ l, d.stop < 2 ^ 64) (a : ℕ) :
    describes (mergeMemoryMap l) a = describes l a := by
  cases l with
  | nil => rfl
  | cons x l =>
    exact describes_mergeFrom x (hl x (by simp)) (fun d hd => hl d (by simp [hd])) a

lemma describes_finish (hl : ∀ d ∈ l, d.stop < 2 ^ 64) (n : ℕ) (a : ℕ) :
    (describes (mergeMemoryMap ((sortMemoryMap n l).map enforceMemoryMapAttribute)) a).Perm
      ((describes l a).map enforceLabel) := by
  have hstop : ∀ d, (enforceMemoryMapAttribute d).stop = d.stop := by
    intro d
    unfold enforceMemoryMapAttribute
    split <;> rfl
  rw [describes_mergeMemoryMap, describes_enforce]
  · exact (describes_perm (sortMemoryMap_perm n l) a).map _
  · intro d hd
    obtain ⟨x, hx, rfl⟩ := List.mem_map.mp hd
    rw [hstop]
    exact hl x ((sortMemoryMap_perm n l).mem_iff.mp hx)

/-- What is done with the records that the loop leaves. -/
def finish (records : List EfiMemoryDescriptor) : List EfiMemoryDescriptor :=
  mergeMemoryMap ((sortMemoryMap records.length records).map enforceMemoryMapAttribute)

lemma mem_map (hmap : MapOk map) (he : e ∈ map) : 4096 ∣ e.physicalStart ∧ e.stop < 2 ^ 64 :=
  ⟨hmap.aligned e he, hmap.bounded e he⟩

lemma splitTable_eq (hp : p.Ok) (hmap : MapOk map)
    (hbuf : ∀ i (h : i < map.length), buffer i = map[i]) :
    ∃ buffer' records, splitTableLoop p map.length (map.length + p.additionalRecordCount) buffer 0 =
        .ok (buffer', (tableRecords p map).length - map.length) ∧
      splitTable p buffer map.length = .ok (finish records) ∧
      records.length = (tableRecords p map).length ∧
      ∀ n (h : n < records.length), records[n] = buffer' (map.length + p.additionalRecordCount -
        (tableRecords p map).length + n) := by
  have hcap := slotsNeeded_le hp hmap
  obtain ⟨hlow, hhigh⟩ := length_tableRecords hp map
  obtain ⟨buffer', hloop, -, -⟩ := @splitTableLoop_spec p _ 0 _ _ hp hmap.aligned hmap.bounded hbuf
    hcap
  rw [Nat.zero_add] at hloop
  have hcnt : map.length + ((tableRecords p map).length - map.length) =
      (tableRecords p map).length := by omega
  refine ⟨buffer', (List.range (tableRecords p map).length).map (buffer'.move 0
    (p.additionalRecordCount - ((tableRecords p map).length - map.length))
    (tableRecords p map).length), hloop, ?_, by simp, ?_⟩
  · rw [splitTable, hloop]
    simp only [Except.bind, hcnt]
    rfl
  · intro n hn
    rw [List.length_map, List.length_range] at hn
    have hmove := @Slots.move_add _ buffer' _ 0
      (p.additionalRecordCount - ((tableRecords p map).length - map.length)) _ hn
    rw [Nat.zero_add] at hmove
    rw [List.getElem_map, List.getElem_range, hmove]
    congr 1
    omega

lemma splitTable_gapped (hp : p.Ok) (hmap : MapOk map)
    (hbuf : ∀ i (h : i < map.length), buffer i = map[i]) (hgap : ∀ e ∈ map, EntryGapped p e) :
    splitTable p buffer map.length = .ok (finish (tableRecords p map)) := by
  obtain ⟨buffer', records, hloop, hrun, hlen, hget⟩ := splitTable_eq hp hmap hbuf
  obtain ⟨b, hloo', -, hrec⟩ := @splitTableLoop_spec p _ 0 _ _ hp hmap.aligned hmap.bounded
    hbuf (slotsNeeded_le hp hmap)
  rw [hloop, Nat.zero_add] at hloo'
  cases hloo'
  rw [hrun]
  refine congrArg (fun l => Except.ok (finish l)) (List.ext_getElem hlen fun n hn hn' => ?_)
  rw [hget n hn, hrec hgap n hn']

lemma describes_tableRecords (hp : p.Ok) (hmap : MapOk map) (a : ℕ) :
    (∀ e ∈ map, e.Has a → describes (tableRecords p map) a = [splitLabel p e a]) ∧
      ((∀ e ∈ map, ¬ e.Has a) → describes (tableRecords p map) a = []) := by
  induction map with
  | nil => simp [tableRecords]
  | cons x map ih =>
    have hx := mem_map hmap (List.mem_cons_self (a := x))
    have hrest : MapOk map := ⟨(List.pairwise_cons.mp hmap.sorted).2,
      fun e he => hmap.aligned e (by simp [he]), fun e he => hmap.bounded e (by simp [he])⟩
    obtain ⟨hin, hout⟩ := ih hrest
    have hcons : describes (tableRecords p (x :: map)) a =
        (if x.Has a then [splitLabel p x a] else []) ++ describes (tableRecords p map) a := by
      rw [← describes_splitRecords hp hx.1 hx.2, ← describes_append]
      rfl
    constructor
    · intro e he hea
      rw [hcons]
      rcases List.mem_cons.mp he with rfl | he'
      · -- no later entry has the address
        have hnone : ∀ f ∈ map, ¬ f.Has a := by
          intro f hf hfa
          have := (List.pairwise_cons.mp hmap.sorted).1 f hf
          unfold EfiMemoryDescriptor.Has at hea hfa
          omega
        rw [if_pos hea, hout hnone, List.append_nil]
      · have hxa : ¬ x.Has a := by
          intro hxa
          have := (List.pairwise_cons.mp hmap.sorted).1 e he'
          unfold EfiMemoryDescriptor.Has at hea hxa
          omega
        rw [if_neg hxa, List.nil_append, hin e he' hea]
    · grind

lemma mem_tableRecords_stop (hp : p.Ok) (hmap : MapOk map) :
    ∀ d ∈ tableRecords p map, d.stop < 2 ^ 64 := by
  intro d hd
  obtain ⟨e, he, hde⟩ := List.mem_flatMap.mp hd
  have hok := mem_map hmap he
  have := mem_splitRecords hp hok.1 hok.2 d hde
  omega

/-! ### Separated tables -/

/-- The table `out` separates the map: it describes the addresses of the map and no others, each
once; entries without images as they were, up to the enforced attribute; the code of images inside
an entry as read-only and executable, the rest of such an entry as non-executable. -/
structure Separates (p : Properties) (map out : List EfiMemoryDescriptor) : Prop where
  outside : ∀ a, (∀ e ∈ map, ¬ e.Has a) → describes out a = []
  once : ∀ e ∈ map, ∀ a, e.Has a → (describes out a).length = 1
  kept : ∀ e ∈ map, (∀ r ∈ p.imageRecordList, ¬ r.Inside e) → ∀ a, e.Has a →
    ∀ x ∈ describes out a, x = (e.type, (enforceMemoryMapAttribute e).attr)
  code : ∀ e ∈ map, ∀ r ∈ p.imageRecordList, r.Inside e → ∀ s ∈ r.codeSegmentList, ∀ a, s.Has a →
    ∀ x ∈ describes out a, x.2 &&& efiMemoryRo = efiMemoryRo ∧ x.2 &&& efiMemoryXp = 0
  data : ∀ e ∈ map, (∃ r ∈ p.imageRecordList, r.Inside e) → ∀ a, e.Has a →
    (∀ r ∈ p.imageRecordList, r.Inside e → ∀ s ∈ r.codeSegmentList, ¬ s.Has a) →
    ∀ x ∈ describes out a, x.2 &&& efiMemoryXp ≠ 0

/-- No image lies in an entry of a type that is made non-executable, unless the code gets a type
of its own. -/
def CodeExecutable (p : Properties) (map : List EfiMemoryDescriptor) : Prop :=
  p.mPropertiesTableEnable = true ∨
    ∀ e ∈ map, enforced e.type = true → ∀ r ∈ p.imageRecordList, ¬ r.Inside e

/-- Whatever lies behind the map in the buffer, the call returns a separated table. -/
def SplitsRight (p : Properties) (map : List EfiMemoryDescriptor) : Prop :=
  ∀ buffer : Slots EfiMemoryDescriptor, (∀ i (h : i < map.length), buffer i = map[i]) →
    ∃ out, splitTable p buffer map.length = .ok out ∧ Separates p map out

lemma coveredImages_eq_nil_iff :
    coveredImages p e.physicalStart e.stop = [] ↔ ∀ r ∈ p.imageRecordList, ¬ r.Inside e := by
  simp [coveredImages, List.filter_eq_nil_iff, ImageRecord.Inside]

lemma has_of_section (hp : p.Ok) {r : ImageRecord} (hr : r ∈ p.imageRecordList) (hin : r.Inside e)
    {s : CodeSection} (hs : s ∈ r.codeSegmentList) (ha : s.Has a) :
    e.Has a ∧ InCode (coveredImages p e.physicalStart e.stop) a := by
  have hok := (hp.records r hr).sectionsOk le_rfl
  have hlow := hok.le_base s hs
  have hhigh := hok.stop_le s hs
  refine ⟨?_, r, mem_coveredImages.mpr ⟨hr, hin⟩, s, hs, ha⟩
  unfold CodeSection.Has at ha
  unfold ImageRecord.Inside at hin
  unfold EfiMemoryDescriptor.Has
  omega

lemma describes_finish_table (hp : p.Ok) (hmap : MapOk map) (he : e ∈ map) (hea : e.Has a) :
    describes (finish (tableRecords p map)) a = [enforceLabel (splitLabel p e a)] := by
  have hperm := describes_finish (mem_tableRecords_stop hp hmap) (tableRecords p map).length a
  rw [(describes_tableRecords hp hmap a).1 e he hea] at hperm
  exact List.perm_singleton.mp hperm

lemma enforceLabel_xp {x : MemoryType × BitVec 64} (h : x.2 &&& efiMemoryXp ≠ 0) :
    (enforceLabel x).2 &&& efiMemoryXp ≠ 0 := by
  unfold enforceLabel
  split
  · rw [or_and_self]
    decide
  · exact h

lemma separates_iff (hp : p.Ok) (hmap : MapOk map) :
    Separates p map (finish (tableRecords p map)) ↔ CodeExecutable p map := by
  constructor
  · intro h
    by_contra hcon
    simp only [CodeExecutable, not_or, not_forall, not_not, Bool.not_eq_true] at hcon
    obtain ⟨hena, e, he, htype, r, hr, hin⟩ := hcon
    -- the first page of a code section inside an entry of an enforced type
    obtain ⟨s, rest, hs⟩ := List.exists_cons_of_ne_nil (hp.records r hr).code
    have hsok := (hp.records r hr).sectionsOk le_rfl
    rw [hs] at hsok
    have hsa : s.Has s.codeSegmentBase := ⟨le_rfl, hsok.2.2.1⟩
    obtain ⟨hea, hcode⟩ := has_of_section hp hr hin (hs ▸ List.mem_cons_self) hsa
    have hne : coveredImages p e.physicalStart e.stop ≠ [] := by
      rw [Ne, coveredImages_eq_nil_iff]
      exact fun h => h r hr hin
    have hxp := (h.code e he r hr hin s (hs ▸ List.mem_cons_self) _ hsa _
      (describes_finish_table hp hmap he hea ▸ List.mem_singleton_self _)).2
    rw [splitLabel, if_neg hne, if_pos hcode, enforceLabel, codeLabel] at hxp
    simp only [hena, Bool.false_eq_true, if_false, htype, if_true, or_and_self] at hxp
    exact absurd hxp (by decide)
  · intro h
    refine ⟨fun a hno => ?_, fun e he a hea => ?_, fun e he hno a hea x hx => ?_,
      fun e he r hr hin s hs a hsa x hx => ?_, fun e he hex a hea hno x hx => ?_⟩
    · have hperm := describes_finish (mem_tableRecords_stop hp hmap) (tableRecords p map).length a
      rw [(describes_tableRecords hp hmap a).2 hno] at hperm
      exact hperm.eq_nil
    · rw [describes_finish_table hp hmap he hea]
      rfl
    · rw [describes_finish_table hp hmap he hea, List.mem_singleton, splitLabel,
        if_pos (coveredImages_eq_nil_iff.mpr hno)] at hx
      rw [hx]
      unfold enforceLabel enforceMemoryMapAttribute
      split <;> rfl
    · obtain ⟨hea, hcode⟩ := has_of_section hp hr hin hs hsa
      have hne : coveredImages p e.physicalStart e.stop ≠ [] := by
        rw [Ne, coveredImages_eq_nil_iff]
        exact fun h => h r hr hin
      rw [describes_finish_table hp hmap he hea, List.mem_singleton, splitLabel, if_neg hne,
        if_pos hcode] at hx
      have hfree : enforced (codeLabel p e).1 = false := by
        unfold codeLabel
        rcases h with hena | htyp
        · rw [hena]
          rfl
        · cases hena : p.mPropertiesTableEnable
          · grind
          · rfl
      rw [enforceLabel, hfree] at hx
      rw [hx]
      exact ⟨codeRecord_ro (p := p) (s := s), codeRecord_xp (p := p) (s := s)⟩
    · have hne : coveredImages p e.physicalStart e.stop ≠ [] := by
        obtain ⟨r, hr, hin⟩ := hex
        rw [Ne, coveredImages_eq_nil_iff]
        exact fun h => h r hr hin
      have hdata : ¬ InCode (coveredImages p e.physicalStart e.stop) a := by
        rintro ⟨r, hr, s, hs, hsa⟩
        obtain ⟨hr, hin⟩ := mem_coveredImages.mp hr
        exact hno r hr hin s hs hsa
      rw [describes_finish_table hp hmap he hea, List.mem_singleton, splitLabel, if_neg hne,
        if_neg hdata] at hx
      rw [hx]
      exact enforceLabel_xp (@dataRecord_xp p 0 0 e)

lemma exists_first {Q : EfiMemoryDescriptor → Prop} (h : ¬ ∀ e ∈ map, Q e) :
    ∃ pre e post, map = pre ++ e :: post ∧ (∀ x ∈ pre, Q x) ∧ ¬ Q e := by
  induction map with
  | nil => exact absurd (by simp) h
  | cons x map ih =>
    by_cases hx : Q x
    · obtain ⟨pre, e, post, rfl, hpre, he⟩ := ih (fun hall => h (by simpa [hx] using hall))
      exact ⟨x :: pre, e, post, rfl, by simpa [hx] using hpre, he⟩
    · exact ⟨[], x, map, rfl, by simp, hx⟩

/-- A slot without pages. -/
def noPages : EfiMemoryDescriptor := ⟨0, 0, 0, 0, 0⟩

lemma page_lost (hp : p.Ok) (hmap : MapOk map) (hgap : ¬ ∀ e ∈ map, EntryGapped p e) :
    ∃ e ∈ map, ∃ a, e.Has a ∧ ∃ records,
      splitTable p (fun i => map.getD i noPages) map.length = .ok (finish records) ∧
      (∀ d ∈ records, d.stop < 2 ^ 64) ∧ ∀ d ∈ records, ¬ d.Has a := by
  obtain ⟨pre₁, low, pre₂, rfl, hpre, hlow⟩ := exists_first hgap
  have hlowm : low ∈ pre₁ ++ low :: pre₂ := by simp
  obtain ⟨hali, hbou⟩ := mem_map hmap hlowm
  have hcov : coveredImages p low.physicalStart low.stop ≠ [] := by
    intro hnil
    rw [EntryGapped, hnil] at hlow
    exact hlow trivial
  have hbuf : ∀ i (h : i < (pre₁ ++ low :: pre₂).length),
      (pre₁ ++ low :: pre₂).getD i noPages = (pre₁ ++ low :: pre₂)[i] := fun i hi => by
    rw [List.getD_eq_getElem _ _ hi]
  -- the first address of the last record of this entry
  obtain ⟨init, d, hspl⟩ := List.eq_nil_or_concat (splitRecords p low) |>.resolve_left
    (splitRecords_ne_nil hp)
  rw [List.concat_eq_append] at hspl
  have hd := mem_splitRecords hp hali hbou d (by rw [hspl]; simp)
  have hda : d.Has d.physicalStart := ⟨le_rfl, hd.2.2 hcov⟩
  have hlowa : low.Has d.physicalStart := ⟨hd.1, lt_of_lt_of_le hda.2 hd.2.1⟩
  have hinit : ∀ x ∈ (splitRecords p low).dropLast, ¬ x.Has d.physicalStart := by
    have hdesc := describes_splitRecords hp hali hbou d.physicalStart
    rw [if_pos hlowa, hspl, describes_append, describes_cons, if_pos hda] at hdesc
    rw [hspl, List.dropLast_concat]
    refine describes_eq_nil_iff.mp (List.length_eq_zero_iff.mp ?_)
    have hlen := congrArg List.length hdesc
    simp only [List.length_append, List.length_cons, List.length_nil, describes_nil] at hlen
    omega
  have hpair := List.pairwise_append.mp hmap.sorted
  have hapa : ∀ e ∈ pre₁ ++ pre₂, ∀ x : EfiMemoryDescriptor, e.physicalStart ≤ x.physicalStart →
      x.stop ≤ e.stop → ¬ x.Has d.physicalStart := by
    intro e he x hxlo hxhi hxa
    unfold EfiMemoryDescriptor.Has at hxa hlowa
    rcases List.mem_append.mp he with he | he
    · have := hpair.2.2 e he low (by simp)
      omega
    · have := (List.pairwise_cons.mp hpair.2.1).1 e he
      omega
  have hmem : ∀ e ∈ pre₁ ++ pre₂, e ∈ pre₁ ++ low :: pre₂ := by
    intro e he
    simp only [List.mem_append, List.mem_cons] at he ⊢
    tauto
  refine ⟨low, hlowm, d.physicalStart, hlowa, ?_⟩
  obtain ⟨buffer', records, hloop, hrun, hlen, hget⟩ := splitTable_eq hp hmap hbuf
  have hlost := splitTableLoop_lost (a := d.physicalStart) hp hmap.aligned hmap.bounded hpre hlow
    hinit
    (fun e he x hx => by
      obtain ⟨hali, hbou⟩ := mem_map hmap (hmem e he)
      have hx := mem_splitRecords hp hali hbou x hx
      exact hapa e he x hx.1 hx.2.1)
    hbuf
    (fun j hj => by
      rcases Nat.lt_or_ge j (pre₁ ++ low :: pre₂).length with hlt | hge
      · grind
      · rw [List.getD_eq_default _ _ hge]
        exact fun h => absurd h.2 (Nat.not_lt_zero _))
    (slotsNeeded_le hp hmap) hloop
  have hall := splitTableLoop_all (Q := fun d => d.stop < 2 ^ 64) hp hmap.aligned hmap.bounded hbuf
    (slotsNeeded_le hp hmap)
    (fun j => by
      rcases Nat.lt_or_ge j (pre₁ ++ low :: pre₂).length with hlt | hge
      · rw [hbuf j hlt]
        exact hmap.bounded _ (List.getElem_mem hlt)
      · rw [List.getD_eq_default _ _ hge]
        decide)
    (mem_tableRecords_stop hp hmap) hloop
  refine ⟨records, hrun, fun x hx => ?_, fun x hx => ?_⟩
  · obtain ⟨n, hn, rfl⟩ := List.getElem_of_mem hx
    rw [hget n hn]
    exact hall _
  · obtain ⟨n, hn, rfl⟩ := List.getElem_of_mem hx
    rw [hget n hn]
    exact hlost _ (Nat.le_add_right _ _)

/-- `SplitTable` separates a map exactly if there is data in front of every code section and
behind the last one of every image, and no image lies in an entry of a type that is made
non-executable while the code keeps that type. -/
theorem splitsRight_iff (hp : p.Ok) (hmap : MapOk map) :
    SplitsRight p map ↔ (∀ e ∈ map, EntryGapped p e) ∧ CodeExecutable p map := by
  have hbuf : ∀ i (h : i < map.length), map.getD i noPages = map[i] := fun i hi =>
    List.getD_eq_getElem _ _ hi
  constructor
  · intro h
    obtain ⟨out, hrun, hsep⟩ := h _ hbuf
    have hgap : ∀ e ∈ map, EntryGapped p e := by
      by_contra hgap
      obtain ⟨e, he, a, hea, records, hrun', hstop, hno⟩ := page_lost hp hmap hgap
      rw [hrun'] at hrun
      cases hrun
      have hperm := describes_finish hstop records.length a
      rw [describes_eq_nil_iff.mpr hno] at hperm
      have hone := hsep.once e he a hea
      rw [finish, hperm.eq_nil] at hone
      exact absurd hone (by decide)
    rw [splitTable_gapped hp hmap hbuf hgap] at hrun
    cases hrun
    exact ⟨hgap, (separates_iff hp hmap).mp hsep⟩
  · rintro ⟨hgap, hcode⟩ buffer hbuf
    exact ⟨_, splitTable_gapped hp hmap hbuf hgap, (separates_iff hp hmap).mpr hcode⟩

/-- A runtime image of four pages whose second page is code, in an entry of its own. -/
def oneImage : Properties :=
  { imageRecordList := [⟨0x1000, 0x4000, [⟨0x2000, 0x1000⟩]⟩], codeSegmentCountMax := 1
    mPropertiesTableEnable := true }

def oneEntry : List EfiMemoryDescriptor := [⟨efiRuntimeServicesCode, 0x1000, 0, 4, 0⟩]

lemma mapOk_oneEntry : MapOk oneEntry :=
  ⟨List.pairwise_singleton _ _, by simp [oneEntry], by simp [oneEntry, EfiMemoryDescriptor.stop]⟩

lemma ok_of_section {base size start length : ℕ} (hbase : 4096 ∣ base) (hsize : 4096 ∣ size)
    (hbou : base + size < 2 ^ 64) (hsta : 4096 ∣ start)
    (hval : isImageRecordCodeSectionValid ⟨base, size, [⟨start, length⟩]⟩ = true)
    (enable : Bool) : Properties.Ok
      { imageRecordList := [⟨base, size, [⟨start, length⟩]⟩], codeSegmentCountMax := 1
        mPropertiesTableEnable := enable } := by
  refine ⟨fun r hr => ?_, List.pairwise_singleton _ _, fun r hr => ?_⟩
  all_goals obtain rfl := List.mem_singleton.mp hr
  · exact ⟨hbase, hsize, by simp, hbou, hval, by simpa using hsta⟩
  · exact le_rfl

theorem splitsRight_oneImage : SplitsRight oneImage oneEntry := by
  refine (splitsRight_iff (ok_of_section (by decide) (by decide) (by decide) (by decide)
    (by decide) true) mapOk_oneEntry).mpr ⟨fun e he => ?_, .inl rfl⟩
  obtain rfl := List.mem_singleton.mp he
  exact ⟨by decide, show 0x3000 < 0x5000 by decide⟩

/-- If the first page of the image is code, the pages behind it are lost. -/
theorem not_splitsRight_codeFirst :
    ∃ p map, p.Ok ∧ MapOk map ∧ p.imageRecordList = [⟨0x1000, 0x4000, [⟨0x1000, 0x1000⟩]⟩] ∧
      map = oneEntry ∧
      splitTable p (fun i => map.getD i noPages) map.length =
        .ok [noPages, ⟨efiRuntimeServicesCode, 0x1000, 0, 1, efiMemoryRo⟩] ∧
      ¬ SplitsRight p map := by
  have hrun : splitTable
      { oneImage with imageRecordList := [⟨0x1000, 0x4000, [⟨0x1000, 0x1000⟩]⟩] }
      (fun i => oneEntry.getD i noPages) oneEntry.length =
        .ok [noPages, ⟨efiRuntimeServicesCode, 0x1000, 0, 1, efiMemoryRo⟩] := by decide
  refine ⟨{ oneImage with imageRecordList := [⟨0x1000, 0x4000, [⟨0x1000, 0x1000⟩]⟩] }, oneEntry,
    ok_of_section (by decide) (by decide) (by decide) (by decide) (by decide) true,
    mapOk_oneEntry, rfl, rfl, hrun, fun h => ?_⟩
  obtain ⟨out, hrun', hsep⟩ := h _ fun i hi => List.getD_eq_getElem _ _ hi
  rw [hrun] at hrun'
  cases hrun'
  exact absurd (hsep.once _ (List.mem_singleton_self _) 0x2000 (by decide)) (by decide)

end Edk2.PropertiesTable
