import Mathlib.Algebra.Order.BigOperators.Group.List
import Edk2.PropertiesTable.Records

/-!
# What the records of a split describe

The records of an entry describe each of its addresses once, as code or as data. There are fewer
of them than slots exactly if a code section has no data in front of it, or none behind it.
-/

namespace Edk2.PropertiesTable

open Edk2.Pool (MemoryType efiRuntimeServicesCode efiRuntimeServicesData efiSizeToPages)

/-- The types and attributes that the entries of a map give to an address. -/
def describes (l : List EfiMemoryDescriptor) (a : ℕ) : List (MemoryType × BitVec 64) :=
  (l.filter fun d => d.Has a).map fun d => (d.type, d.attr)

variable {p : Properties} {stop pos limit a n : ℕ} {s : CodeSection} {ss : List CodeSection}
  {r : ImageRecord} {rs : List ImageRecord} {d e : EfiMemoryDescriptor}
  {l l' : List EfiMemoryDescriptor}

@[simp] lemma describes_nil (a : ℕ) : describes [] a = [] := rfl

lemma describes_cons (d : EfiMemoryDescriptor) (l : List EfiMemoryDescriptor) (a : ℕ) :
    describes (d :: l) a =
      if d.Has a then (d.type, d.attr) :: describes l a else describes l a := by
  by_cases h : d.Has a <;> simp [describes, h]

lemma describes_append (l l' : List EfiMemoryDescriptor) (a : ℕ) :
    describes (l ++ l') a = describes l a ++ describes l' a := by
  simp [describes]

lemma describes_eq_nil_iff : describes l a = [] ↔ ∀ d ∈ l, ¬ d.Has a := by
  simp [describes, List.filter_eq_nil_iff]

/-! ### Code and data -/

/-- What the data of an entry is described as. -/
def dataLabel (p : Properties) (e : EfiMemoryDescriptor) : MemoryType × BitVec 64 :=
  (if p.mPropertiesTableEnable then efiRuntimeServicesData else e.type, e.attr ||| efiMemoryXp)

/-- What the code of an entry is described as. -/
def codeLabel (p : Properties) (e : EfiMemoryDescriptor) : MemoryType × BitVec 64 :=
  (if p.mPropertiesTableEnable then efiRuntimeServicesCode else e.type,
    (e.attr &&& ~~~efiMemoryXp) ||| efiMemoryRo)

/-- The address lies in a code section of one of the images. -/
def InCode (rs : List ImageRecord) (a : ℕ) : Prop := ∃ r ∈ rs, ∃ s ∈ r.codeSegmentList, s.Has a

instance (rs : List ImageRecord) (a : ℕ) : Decidable (InCode rs a) :=
  inferInstanceAs (Decidable (∃ r ∈ rs, ∃ s ∈ r.codeSegmentList, s.Has a))

lemma dataRecord_has (hle : pos ≤ n) (hn : n < 2 ^ 64) (hpos : 4096 ∣ pos) (hd : 4096 ∣ n) :
    (dataRecord p e pos n).Has a ↔ pos ≤ a ∧ a < n := by
  unfold EfiMemoryDescriptor.Has
  rw [dataRecord_stop hle hn hpos hd]
  rfl

lemma imageRecords_nil (p : Properties) (e : EfiMemoryDescriptor) (limit pos : ℕ) :
    imageRecords p e limit pos [] = if pos < limit then [dataRecord p e pos limit] else [] := rfl

lemma imageRecords_cons (p : Properties) (e : EfiMemoryDescriptor) (limit pos : ℕ) (s : CodeSection)
    (ss : List CodeSection) : imageRecords p e limit pos (s :: ss) =
      (if pos < s.codeSegmentBase then [dataRecord p e pos s.codeSegmentBase] else []) ++
        codeRecord p e s :: imageRecords p e limit s.stop ss := by
  simp only [imageRecords, sectionRecords, List.append_assoc, List.cons_append]
  rfl

lemma SectionsOk.le_base (h : SectionsOk limit pos ss) : ∀ s ∈ ss, pos ≤ s.codeSegmentBase := by
  induction ss generalizing pos with
  | nil => simp
  | cons s rest ih =>
    obtain ⟨hle, -, hlt, hrest⟩ := h
    intro t ht
    rcases List.mem_cons.mp ht with rfl | ht
    · exact hle
    · have := ih hrest t ht
      omega

lemma SectionsOk.stop_le (h : SectionsOk limit pos ss) : ∀ s ∈ ss, s.stop ≤ limit := by
  induction ss generalizing pos with
  | nil => simp
  | cons s rest ih =>
    obtain ⟨-, -, -, hrest⟩ := h
    intro t ht
    rcases List.mem_cons.mp ht with rfl | ht
    · exact hrest.le
    · exact ih hrest t ht

lemma SectionsOk.mono (h : SectionsOk limit pos ss) (hle : limit ≤ n) : SectionsOk n pos ss := by
  induction ss generalizing pos with
  | nil => exact le_trans h hle
  | cons s rest ih => exact ⟨h.1, h.2.1, h.2.2.1, ih h.2.2.2⟩

lemma describes_imageRecords (h : SectionsOk limit pos ss) (hlim : limit < 2 ^ 64)
    (hd : 4096 ∣ limit) (hpos : 4096 ∣ pos) (a : ℕ) :
    describes (imageRecords p e limit pos ss) a =
      if pos ≤ a ∧ a < limit then
        [if ∃ s ∈ ss, s.Has a then codeLabel p e else dataLabel p e]
      else [] := by
  induction ss generalizing pos with
  | nil =>
    rw [imageRecords_nil]
    by_cases hlt : pos < limit
    · rw [if_pos hlt, describes_cons]
      simp only [dataRecord_has hlt.le hlim hpos hd, describes_nil]
      split_ifs with hin hcode
      · simp at hcode
      · rfl
      · rfl
    · rw [if_neg hlt, if_neg (by omega)]
      rfl
  | cons s rest ih =>
    obtain ⟨hle, hs, hlt, hrest⟩ := h
    have hstop := hrest.le
    have hlat := hrest.le_base
    -- the data in front of the section
    have hgap : describes (if pos < s.codeSegmentBase then [dataRecord p e pos s.codeSegmentBase]
        else []) a = if pos ≤ a ∧ a < s.codeSegmentBase then [dataLabel p e] else [] := by
      by_cases hgap : pos < s.codeSegmentBase
      · rw [if_pos hgap, describes_cons]
        simp only [dataRecord_has hgap.le (by omega : s.codeSegmentBase < 2 ^ 64) hpos hs,
          describes_nil]
        rfl
      · rw [if_neg hgap, if_neg (by omega)]
        rfl
    have hcode : (codeRecord p e s).Has a ↔ s.Has a := Iff.rfl
    rw [imageRecords_cons, describes_append, describes_cons, hgap,
      ih hrest (CodeSection.dvd_stop hs)]
    have hhas : s.Has a ↔ s.codeSegmentBase ≤ a ∧ a < s.stop := Iff.rfl
    rcases Nat.lt_or_ge a s.stop with hbel | habo
    · have hno : ¬ ∃ t ∈ rest, t.Has a := by
        rintro ⟨t, ht, hta, -⟩
        have := hlat t ht
        omega
      rw [if_neg (by omega : ¬ (s.stop ≤ a ∧ a < limit))]
      by_cases hin : s.codeSegmentBase ≤ a
      · have hsa : s.Has a := ⟨hin, hbel⟩
        rw [if_neg (by omega), if_pos (hcode.mpr hsa), if_pos (by omega),
          if_pos ⟨s, by simp, hsa⟩]
        rfl
      · grind
    · have hsa : ¬ s.Has a := fun h => by have := h.2; omega
      have hex : (∃ t ∈ s :: rest, t.Has a) ↔ ∃ t ∈ rest, t.Has a := by
        simp [hsa]
      rw [if_neg (by omega), if_neg (hcode.not.mpr hsa), List.nil_append]
      simp only [hex]
      split_ifs <;> first | rfl | omega

lemma describes_entryRecords (hp : p.Ok) (hstop : stop < 2 ^ 64) (hd : 4096 ∣ stop)
    (hpos : 4096 ∣ pos) (h : coveredImages p pos stop = r :: rs) (a : ℕ) :
    describes (entryRecords p e stop pos (r :: rs)) a =
      if pos ≤ a ∧ a < stop then
        [if InCode (r :: rs) a then codeLabel p e else dataLabel p e]
      else [] := by
  induction rs generalizing pos r with
  | nil =>
    obtain ⟨hr, hle, hlim⟩ := coveredImages_cons hp h
    have hlt := hr.lt_stop
    have hok : SectionsOk stop pos r.codeSegmentList := (hr.sectionsOk hle).mono hlim
    have hin : InCode [r] a ↔ ∃ s ∈ r.codeSegmentList, s.Has a := by simp [InCode]
    rw [entryRecords, describes_imageRecords hok hstop hd hpos]
    simp only [hin]
  | cons r' rs ih =>
    obtain ⟨hr, hle, hlim⟩ := coveredImages_cons hp h
    have htail := coveredImages_tail hp h
    have hlt := hr.lt_stop
    have hok := hr.sectionsOk hle
    rw [entryRecords, describes_append, describes_imageRecords hok hr.bounded hr.dvd_stop hpos,
      ih hr.dvd_stop htail]
    have hin : InCode (r :: r' :: rs) a ↔
        (∃ s ∈ r.codeSegmentList, s.Has a) ∨ InCode (r' :: rs) a := by
      simp [InCode]
    -- the sections of this image end where the others begin
    have hlow : a < r.stop → ¬ InCode (r' :: rs) a := by
      rintro hlow ⟨x, hx, s, hs, hsa, -⟩
      obtain ⟨hx', hbase, -⟩ := mem_coveredImages.mp (htail ▸ hx : x ∈ coveredImages p r.stop stop)
      have := ((hp.records x hx').sectionsOk le_rfl).le_base s hs
      omega
    have hhigh : r.stop ≤ a → ¬ ∃ s ∈ r.codeSegmentList, s.Has a := by
      rintro hhigh ⟨s, hs, -, hsa⟩
      have := hok.stop_le s hs
      omega
    rcases Nat.lt_or_ge a r.stop with hbel | habo
    · grind
    · grind

/-- What an address of an entry is described as. -/
def splitLabel (p : Properties) (e : EfiMemoryDescriptor) (a : ℕ) : MemoryType × BitVec 64 :=
  if coveredImages p e.physicalStart e.stop = [] then (e.type, e.attr)
  else if InCode (coveredImages p e.physicalStart e.stop) a then codeLabel p e else dataLabel p e

lemma describes_splitRecords (hp : p.Ok) (hali : 4096 ∣ e.physicalStart)
    (hbou : e.stop < 2 ^ 64) (a : ℕ) :
    describes (splitRecords p e) a = if e.Has a then [splitLabel p e a] else [] := by
  unfold splitRecords splitLabel
  rcases h : coveredImages p e.physicalStart e.stop with _ | ⟨r, rs⟩
  · rw [if_pos rfl, describes_cons]
    rfl
  · rw [if_neg (List.cons_ne_nil r rs), if_neg (List.cons_ne_nil r rs),
      describes_entryRecords hp hbou
      (Nat.dvd_add hali (Nat.dvd_mul_left _ _)) hali h]
    rfl

lemma mem_imageRecords (h : SectionsOk limit pos ss) (hlim : limit < 2 ^ 64) (hd : 4096 ∣ limit)
    (hpos : 4096 ∣ pos) : ∀ d ∈ imageRecords p e limit pos ss,
      pos ≤ d.physicalStart ∧ d.physicalStart < d.stop ∧ d.stop ≤ limit := by
  induction ss generalizing pos with
  | nil =>
    rw [imageRecords_nil]
    split_ifs with hlt
    · intro d hdm
      obtain rfl := List.mem_singleton.mp hdm
      rw [dataRecord_stop hlt.le hlim hpos hd]
      exact ⟨le_rfl, hlt, le_rfl⟩
    · simp
  | cons s rest ih =>
    obtain ⟨hle, hs, hlt, hrest⟩ := h
    have hstop := hrest.le
    intro d hdm
    rw [imageRecords_cons, List.mem_append, List.mem_cons] at hdm
    rcases hdm with hdata | rfl | hdm
    · split_ifs at hdata with hgap
      · obtain rfl := List.mem_singleton.mp hdata
        rw [dataRecord_stop hgap.le (by omega) hpos hs]
        exact ⟨le_rfl, hgap, by omega⟩
      · cases hdata
    · exact ⟨hle, hlt, hstop⟩
    · have := ih hrest (CodeSection.dvd_stop hs) d hdm
      omega

lemma mem_entryRecords (hp : p.Ok) (hstop : stop < 2 ^ 64) (hd : 4096 ∣ stop) (hpos : 4096 ∣ pos)
    (h : coveredImages p pos stop = r :: rs) : ∀ d ∈ entryRecords p e stop pos (r :: rs),
      pos ≤ d.physicalStart ∧ d.physicalStart < d.stop ∧ d.stop ≤ stop := by
  induction rs generalizing pos r with
  | nil =>
    obtain ⟨hr, hle, hlim⟩ := coveredImages_cons hp h
    exact mem_imageRecords ((hr.sectionsOk hle).mono hlim) hstop hd hpos
  | cons r' rs ih =>
    obtain ⟨hr, hle, hlim⟩ := coveredImages_cons hp h
    have hlt := hr.lt_stop
    intro d hdm
    rcases List.mem_append.mp hdm with hdm | hdm
    · have := mem_imageRecords (hr.sectionsOk hle) hr.bounded hr.dvd_stop hpos d hdm
      omega
    · have := ih hr.dvd_stop (coveredImages_tail hp h) d hdm
      omega

lemma mem_splitRecords (hp : p.Ok) (hali : 4096 ∣ e.physicalStart) (hbou : e.stop < 2 ^ 64) :
    ∀ d ∈ splitRecords p e, e.physicalStart ≤ d.physicalStart ∧ d.stop ≤ e.stop ∧
      (coveredImages p e.physicalStart e.stop ≠ [] → d.physicalStart < d.stop) := by
  intro d hdm
  unfold splitRecords at hdm
  rcases h : coveredImages p e.physicalStart e.stop with _ | ⟨r, rs⟩
  · grind
  · rw [if_neg (by simp [h]), h] at hdm
    have := mem_entryRecords hp hbou (Nat.dvd_add hali (Nat.dvd_mul_left _ _)) hali h d hdm
    exact ⟨this.1, this.2.2, fun _ => this.2.1⟩

/-- There is data in front of every section and behind the last one. -/
def Gapped (limit : ℕ) : ℕ → List CodeSection → Prop
  | pos, [] => pos < limit
  | pos, s :: rest => pos < s.codeSegmentBase ∧ Gapped limit s.stop rest

/-- There is data in front of every section of the images and behind the last section of each. -/
def ImagesGapped (stop : ℕ) : ℕ → List ImageRecord → Prop
  | _, [] => True
  | pos, [r] => Gapped stop pos r.codeSegmentList
  | pos, r :: r' :: rs =>
    Gapped r.stop pos r.codeSegmentList ∧ ImagesGapped stop r.stop (r' :: rs)

lemma length_imageRecords (p : Properties) (e : EfiMemoryDescriptor) (limit pos : ℕ)
    (ss : List CodeSection) :
    (imageRecords p e limit pos ss).length ≤ 2 * ss.length + 1 ∧
      ((imageRecords p e limit pos ss).length = 2 * ss.length + 1 ↔ Gapped limit pos ss) := by
  induction ss generalizing pos with
  | nil =>
    rw [imageRecords_nil, Gapped]
    split_ifs with h <;> simp [h]
  | cons s rest ih =>
    grind [imageRecords_cons, Gapped]

lemma length_entryRecords (p : Properties) (e : EfiMemoryDescriptor) (stop pos : ℕ)
    (r : ImageRecord) (rs : List ImageRecord) :
    (entryRecords p e stop pos (r :: rs)).length ≤ maxRecords (r :: rs) ∧
      ((entryRecords p e stop pos (r :: rs)).length = maxRecords (r :: rs) ↔
        ImagesGapped stop pos (r :: rs)) := by
  induction rs generalizing pos r with
  | nil =>
    have h := length_imageRecords p e stop pos r.codeSegmentList
    simpa only [entryRecords, maxRecords, ImagesGapped, ImageRecord.codeSegmentCount, List.map_cons,
      List.map_nil, List.sum_cons, List.sum_nil, Nat.add_zero] using h
  | cons r' rs ih =>
    obtain ⟨hle, heq⟩ := length_imageRecords p e r.stop pos r.codeSegmentList
    obtain ⟨hle', heq'⟩ := ih r.stop r'
    have hmax : maxRecords (r :: r' :: rs) =
        2 * r.codeSegmentList.length + 1 + maxRecords (r' :: rs) := rfl
    rw [entryRecords, ImagesGapped, List.length_append, hmax, ← heq, ← heq']
    omega

/-- Every image of the entry has data around its code: there are as many records as slots. -/
def EntryGapped (p : Properties) (e : EfiMemoryDescriptor) : Prop :=
  ImagesGapped e.stop e.physicalStart (coveredImages p e.physicalStart e.stop)

lemma length_splitRecords (hp : p.Ok) (e : EfiMemoryDescriptor) :
    0 < (splitRecords p e).length ∧ (splitRecords p e).length ≤ maxSplit p e + 1 ∧
      ((splitRecords p e).length = maxSplit p e + 1 ↔ EntryGapped p e) := by
  refine ⟨List.length_pos_iff.mpr (splitRecords_ne_nil hp), ?_⟩
  unfold splitRecords maxSplit EntryGapped
  rcases h : coveredImages p e.physicalStart e.stop with _ | ⟨r, rs⟩
  · simp [maxRecords, ImagesGapped]
  · obtain ⟨hle, heq⟩ := length_entryRecords p e e.stop e.physicalStart r rs
    have hpos : 0 < maxRecords (r :: rs) := by
      simp only [maxRecords, List.map_cons, List.sum_cons]
      omega
    rw [if_neg (by simp), Nat.sub_add_cancel hpos]
    exact ⟨hle, heq⟩

end Edk2.PropertiesTable

/-!
## The loop of SplitTable

The loop goes from the last entry to the first. The copy behind `SplitRecord` moves one record
less than was written, so an entry with fewer records than slots loses its last one.
-/

namespace Edk2.PropertiesTable

variable {p : Properties} {a k m t : ℕ} {e low : EfiMemoryDescriptor}
  {map pre : List EfiMemoryDescriptor} {b : Slots EfiMemoryDescriptor}

/-- The b after one round of the loop. -/
def splitStep (p : Properties) (e : EfiMemoryDescriptor) (m : ℕ)
    (b : Slots EfiMemoryDescriptor) : Slots EfiMemoryDescriptor :=
  (b.write (m - 1 - maxSplit p e) (splitRecords p e)).move
    (m - (splitRecords p e).length) (m - 1 - maxSplit p e)
    ((splitRecords p e).length - 1)

lemma splitTableLoop_succ (hp : p.Ok) (he : b k = e) (hali : 4096 ∣ e.physicalStart)
    (hbou : e.stop < 2 ^ 64) (hend : maxSplit p e < m) :
    splitTableLoop p (k + 1) m b t =
      splitTableLoop p k (m - (splitRecords p e).length) (splitStep p e m b)
        (t + ((splitRecords p e).length - 1)) := by
  obtain ⟨hpos, hle, -⟩ := length_splitRecords hp e
  have hmax : getMaxSplitRecordCount p (b k) = .ok (maxSplit p e) := by
    rw [he]
    exact getMaxSplitRecordCount_spec hp hbou
  have hmov : m - 1 - maxSplit p e + maxSplit p e - ((splitRecords p e).length - 1) =
      m - (splitRecords p e).length := by omega
  rw [splitTableLoop, hmax]
  simp only [Except.bind, splitRecord_spec hp he hali hbou, hmov]
  rfl

lemma splitStep_outside (hp : p.Ok) (hend : maxSplit p e < m) {j : ℕ}
    (hj : j < m - 1 - maxSplit p e ∨ m ≤ j) :
    splitStep p e m b j = b j := by
  obtain ⟨hpos, hle, -⟩ := length_splitRecords hp e
  rw [splitStep, Slots.move_of_lt (by omega), Slots.write_of_lt (by omega)]

lemma splitStep_mem (hp : p.Ok) (j : ℕ) :
    splitStep p e m b j = b j ∨
      splitStep p e m b j ∈ splitRecords p e := by
  obtain ⟨hpos, hle, -⟩ := length_splitRecords hp e
  have hwri : ∀ i, b.write (m - 1 - maxSplit p e) (splitRecords p e) i = b i ∨
      b.write (m - 1 - maxSplit p e) (splitRecords p e) i ∈ splitRecords p e := by
    intro i
    by_cases hi : m - 1 - maxSplit p e ≤ i ∧ i < m - 1 - maxSplit p e + (splitRecords p e).length
    · exact .inr (Slots.write_mem hi.1 hi.2)
    · exact .inl (Slots.write_of_lt (by omega))
  unfold splitStep
  by_cases hj : m - (splitRecords p e).length ≤ j ∧
      j < m - (splitRecords p e).length + ((splitRecords p e).length - 1)
  · obtain ⟨n, rfl⟩ := Nat.exists_eq_add_of_le hj.1
    rw [Slots.move_add (by omega)]
    exact .inr (Slots.write_mem (by omega) (by omega))
  · rw [Slots.move_of_lt (by omega)]
    exact hwri j

lemma splitStep_init (hp : p.Ok) {n : ℕ}
    (hn : n + 1 < (splitRecords p e).length) :
    splitStep p e m b (m - (splitRecords p e).length + n) = (splitRecords p e)[n] := by
  obtain ⟨hpos, hle, -⟩ := length_splitRecords hp e
  rw [splitStep, Slots.move_add (by omega), Slots.write_add]

lemma splitStep_gapped (hp : p.Ok) (hend : maxSplit p e < m) (hgap : EntryGapped p e) {n : ℕ}
    (hn : n < (splitRecords p e).length) :
    splitStep p e m b (m - (splitRecords p e).length + n) = (splitRecords p e)[n] := by
  obtain ⟨hpos, hle, hiff⟩ := length_splitRecords hp e
  have hlen := hiff.mpr hgap
  have hslot : m - (splitRecords p e).length = m - 1 - maxSplit p e := by omega
  rcases Nat.lt_or_ge (n + 1) (splitRecords p e).length with hlt | hge
  · exact splitStep_init hp hlt
  · rw [splitStep, Slots.move_of_lt (by omega), hslot, Slots.write_add hn]

lemma splitStep_last (hp : p.Ok) (hend : maxSplit p e < m) (hgap : ¬ EntryGapped p e) :
    splitStep p e m b (m - 1) = b (m - 1) := by
  obtain ⟨hpos, hle, hiff⟩ := length_splitRecords hp e
  have hlen := hiff.not.mpr hgap
  rw [splitStep, Slots.move_of_lt (by omega), Slots.write_of_lt (by omega)]

/-- The slots that the entries of a map are given. -/
def slotsNeeded (p : Properties) (l : List EfiMemoryDescriptor) : ℕ :=
  (l.map fun e => maxSplit p e + 1).sum

/-- The records of all entries. -/
def tableRecords (p : Properties) (l : List EfiMemoryDescriptor) : List EfiMemoryDescriptor :=
  l.flatMap (splitRecords p)

lemma slotsNeeded_concat (p : Properties) (l : List EfiMemoryDescriptor) (e : EfiMemoryDescriptor) :
    slotsNeeded p (l ++ [e]) = slotsNeeded p l + (maxSplit p e + 1) := by
  simp [slotsNeeded]

lemma tableRecords_concat (p : Properties) (l : List EfiMemoryDescriptor)
    (e : EfiMemoryDescriptor) :
    tableRecords p (l ++ [e]) = tableRecords p l ++ splitRecords p e := by
  simp [tableRecords]

lemma length_le_slotsNeeded (l : List EfiMemoryDescriptor) : l.length ≤ slotsNeeded p l := by
  induction l with
  | nil => exact le_rfl
  | cons e l ih =>
    simp only [slotsNeeded, List.map_cons, List.sum_cons, List.length_cons] at *
    omega

lemma length_tableRecords (hp : p.Ok) (l : List EfiMemoryDescriptor) :
    l.length ≤ (tableRecords p l).length ∧ (tableRecords p l).length ≤ slotsNeeded p l := by
  induction l with
  | nil => exact ⟨le_rfl, le_rfl⟩
  | cons e l ih =>
    obtain ⟨hpos, hle, -⟩ := length_splitRecords hp e
    simp only [slotsNeeded, tableRecords, List.map_cons, List.sum_cons, List.length_cons,
      List.flatMap_cons, List.length_append] at *
    omega

/-- The loop over a map in the first slots: it returns, leaves the slots behind alone, and if every
entry uses all its slots, it leaves the records of the map. -/
lemma splitTableLoop_spec (hp : p.Ok) (hali : ∀ e ∈ pre, 4096 ∣ e.physicalStart)
    (hbou : ∀ e ∈ pre, e.stop < 2 ^ 64) (hbuf : ∀ i (h : i < pre.length), b i = pre[i])
    (hend : slotsNeeded p pre ≤ m) :
    ∃ b', splitTableLoop p pre.length m b t =
        .ok (b', t + ((tableRecords p pre).length - pre.length)) ∧
      (∀ j, m ≤ j → b' j = b j) ∧
      ((∀ e ∈ pre, EntryGapped p e) → ∀ n (h : n < (tableRecords p pre).length),
        b' (m - (tableRecords p pre).length + n) = (tableRecords p pre)[n]) := by
  induction pre using List.reverseRecOn generalizing b m t with
  | nil => exact ⟨b, rfl, fun _ _ => rfl, fun _ n hn => absurd hn (Nat.not_lt_zero n)⟩
  | append_singleton pre e ih =>
    have he : b pre.length = e := by
      rw [hbuf pre.length (by simp)]
      simp
    obtain ⟨hpos, hle, -⟩ := length_splitRecords hp e
    obtain ⟨hlow, hhigh⟩ := length_tableRecords hp pre
    have hneed := length_le_slotsNeeded (p := p) pre
    rw [slotsNeeded_concat] at hend
    have hmax : maxSplit p e < m := by omega
    have hkept : ∀ i (h : i < pre.length), splitStep p e m b i = pre[i] := by
      grind [splitStep_outside, List.getElem_append_left]
    obtain ⟨b', hloop, hout, hrec⟩ := ih (b := splitStep p e m b)
      (m := m - (splitRecords p e).length)
      (t := t + ((splitRecords p e).length - 1))
      (fun e he => hali e (by simp [he])) (fun e he => hbou e (by simp [he])) hkept (by omega)
    refine ⟨b', ?_, ?_, ?_⟩
    · simp [List.length_append,
        splitTableLoop_succ hp he (hali e (by simp)) (hbou e (by simp)) hmax, hloop,
        tableRecords_concat]
      omega
    · intro j hj
      rw [hout j (by omega), splitStep_outside hp hmax (.inr hj)]
    · intro hgap n hn
      have hgaps : ∀ e ∈ pre, EntryGapped p e := fun e he => hgap e (by simp [he])
      simp only [tableRecords_concat, List.length_append] at hn ⊢
      rcases Nat.lt_or_ge n (tableRecords p pre).length with hlt | hge
      · grind
      · rw [List.getElem_append_right hge]
        have hslot : m - ((tableRecords p pre).length + (splitRecords p e).length) + n =
            m - (splitRecords p e).length + (n - (tableRecords p pre).length) := by omega
        rw [hslot, hout _ (by omega), splitStep_gapped hp hmax (hgap e (by simp))]

lemma splitTableLoop_all {Q : EfiMemoryDescriptor → Prop} (hp : p.Ok)
    (hali : ∀ e ∈ pre, 4096 ∣ e.physicalStart) (hbou : ∀ e ∈ pre, e.stop < 2 ^ 64)
    (hbuf : ∀ i (h : i < pre.length), b i = pre[i]) (hend : slotsNeeded p pre ≤ m)
    (hall : ∀ j, Q (b j)) (hrec : ∀ d ∈ tableRecords p pre, Q d)
    {b' : Slots EfiMemoryDescriptor} {t' : ℕ}
    (hrun : splitTableLoop p pre.length m b t = .ok (b', t')) :
    ∀ j, Q (b' j) := by
  induction pre using List.reverseRecOn generalizing b m t with
  | nil =>
    cases hrun
    exact hall
  | append_singleton pre e ih =>
    have he : b pre.length = e := by
      rw [hbuf pre.length (by simp)]
      simp
    obtain ⟨hpos, hle, -⟩ := length_splitRecords hp e
    have hneed := length_le_slotsNeeded (p := p) pre
    rw [slotsNeeded_concat] at hend
    have hmax : maxSplit p e < m := by omega
    rw [List.length_append, List.length_singleton, splitTableLoop_succ hp he (hali e (by simp))
      (hbou e (by simp)) hmax] at hrun
    rw [tableRecords_concat] at hrec
    refine ih (fun e he => hali e (by simp [he])) (fun e he => hbou e (by simp [he]))
      (fun i hi => ?_) (by omega) (fun j => ?_)
      (fun d hd => hrec d (List.mem_append_left _ hd)) hrun
    · grind [splitStep_outside, List.getElem_append_left]
    · rcases splitStep_mem (b := b) (m := m) (e := e) hp j with heq | hmem
      · rw [heq]
        exact hall j
      · exact hrec _ (List.mem_append_right _ hmem)

/-- The lowest entry that does not use all its slots loses its last record: an address that only
this record describes is in none of the slots that the loop leaves. -/
lemma splitTableLoop_lost {pre₁ pre₂ : List EfiMemoryDescriptor} (hp : p.Ok)
    (hali : ∀ e ∈ pre₁ ++ low :: pre₂, 4096 ∣ e.physicalStart)
    (hbou : ∀ e ∈ pre₁ ++ low :: pre₂, e.stop < 2 ^ 64)
    (hgap : ∀ e ∈ pre₁, EntryGapped p e) (hlow : ¬ EntryGapped p low)
    (hinit : ∀ d ∈ (splitRecords p low).dropLast, ¬ d.Has a)
    (hoth : ∀ e ∈ pre₁ ++ pre₂, ∀ d ∈ splitRecords p e, ¬ d.Has a)
    (hbuf : ∀ i (h : i < (pre₁ ++ low :: pre₂).length), b i = (pre₁ ++ low :: pre₂)[i])
    (hsta : ∀ j, pre₁.length < j → ¬ (b j).Has a)
    (hend : slotsNeeded p (pre₁ ++ low :: pre₂) ≤ m) {b' : Slots EfiMemoryDescriptor}
    {t' : ℕ} (hrun : splitTableLoop p (pre₁ ++ low :: pre₂).length m b t = .ok (b', t')) :
    ∀ j, m - (tableRecords p (pre₁ ++ low :: pre₂)).length ≤ j → ¬ (b' j).Has a := by
  induction pre₂ using List.reverseRecOn generalizing b m t with
  | nil =>
    obtain ⟨hpos, hle, hiff⟩ := length_splitRecords hp low
    have hsho := hiff.not.mpr hlow
    have hneed := length_le_slotsNeeded (p := p) pre₁
    obtain ⟨-, hhigh⟩ := length_tableRecords hp pre₁
    rw [slotsNeeded_concat] at hend
    have hmax : maxSplit p low < m := by omega
    have hbufl : b pre₁.length = low := by
      rw [hbuf pre₁.length (by simp)]
      simp
    rw [List.length_append, List.length_singleton, splitTableLoop_succ hp hbufl
      (hali low (by simp)) (hbou low (by simp)) hmax] at hrun
    obtain ⟨b₁, hloop, hout, hrec⟩ := splitTableLoop_spec
      (b := splitStep p low m b) (m := m - (splitRecords p low).length)
      (t := t + ((splitRecords p low).length - 1)) hp
      (fun e (he : e ∈ pre₁) => hali e (by simp [he])) (fun e he => hbou e (by simp [he]))
      (fun i hi => by
        rw [splitStep_outside hp hmax (.inl (by omega)), hbuf i (by simp; omega),
          List.getElem_append_left hi])
      (by omega)
    rw [hrun] at hloop
    cases hloop
    rw [tableRecords_concat, List.length_append]
    intro j hj
    rcases Nat.lt_or_ge j (m - (splitRecords p low).length) with hlt | hge
    · -- a record of an entry below
      obtain ⟨n, rfl⟩ : ∃ n, j = m - (splitRecords p low).length -
          (tableRecords p pre₁).length + n := ⟨j - (m - (splitRecords p low).length -
          (tableRecords p pre₁).length), by omega⟩
      have hn : n < (tableRecords p pre₁).length := by omega
      rw [hrec hgap n hn]
      obtain ⟨e, he, hmem⟩ := List.mem_flatMap.mp (List.getElem_mem hn)
      exact hoth e (by simp [he]) _ hmem
    rw [hout j hge]
    rcases Nat.lt_or_ge j m with hlt | hge'
    · rcases Nat.lt_or_ge (j + 1) m with hinn | hlast
      · -- one of the records that were moved
        obtain ⟨n, rfl⟩ := Nat.exists_eq_add_of_le hge
        have hn : n + 1 < (splitRecords p low).length := by omega
        rw [splitStep_init hp hn]
        refine hinit _ (List.mem_iff_getElem.mpr ⟨n, by simp; omega, ?_⟩)
        rw [List.getElem_dropLast]
      · -- the slot of the lost record
        obtain rfl : j = m - 1 := by omega
        rw [splitStep_last hp hmax hlow]
        exact hsta _ (by omega)
    · rw [splitStep_outside hp hmax (.inr hge')]
      exact hsta j (by omega)
  | append_singleton pre₂ e ih =>
    have hass : pre₁ ++ low :: (pre₂ ++ [e]) = (pre₁ ++ low :: pre₂) ++ [e] := by simp
    have hlen : (pre₁ ++ low :: pre₂).length = pre₁.length + 1 + pre₂.length := by
      simp
      omega
    simp only [hass] at hali hbou hbuf hend hrun ⊢
    have hneed := length_le_slotsNeeded (p := p) (pre₁ ++ low :: pre₂)
    rw [slotsNeeded_concat] at hend
    have hmax : maxSplit p e < m := by omega
    obtain ⟨hpos, hle, -⟩ := length_splitRecords hp e
    have hbufe : b (pre₁ ++ low :: pre₂).length = e := by
      rw [hbuf (pre₁ ++ low :: pre₂).length (by simp)]
      simp
    rw [List.length_append, List.length_singleton, splitTableLoop_succ hp hbufe
      (hali e (by simp)) (hbou e (by simp)) hmax] at hrun
    have hlost := ih (b := splitStep p e m b)
      (m := m - (splitRecords p e).length)
      (t := t + ((splitRecords p e).length - 1))
      (fun x hx => hali x (List.mem_append_left _ hx))
      (fun x hx => hbou x (List.mem_append_left _ hx))
      (fun x hx => hoth x (by simp only [List.mem_append] at hx ⊢; tauto))
      (fun i hi => by
        rw [splitStep_outside hp hmax (.inl (by omega)), hbuf i (by simp at hi ⊢; omega),
          List.getElem_append_left hi])
      (fun j hj => by
        rcases splitStep_mem (b := b) (m := m) hp (e := e) j with heq | hmem
        · rw [heq]
          exact hsta j hj
        · exact hoth e (by simp) _ hmem)
      (by omega) hrun
    intro j hj
    rw [tableRecords_concat, List.length_append] at hj
    exact hlost j (by omega)

lemma sum_inside_le (hmap : MapOk map) {r : ImageRecord} (hr : r.imageBase < r.stop) (c : ℕ) :
    (map.map fun e =>
      if e.physicalStart ≤ r.imageBase ∧ r.stop ≤ e.stop then c else 0).sum ≤ c := by
  obtain ⟨hsor, -, -⟩ := hmap
  induction map with
  | nil => simp
  | cons e map ih =>
    rw [List.pairwise_cons] at hsor
    rw [List.map_cons, List.sum_cons]
    by_cases hin : e.physicalStart ≤ r.imageBase ∧ r.stop ≤ e.stop
    · grind [List.sum_eq_zero]
    · rw [if_neg hin, Nat.zero_add]
      exact ih hsor.2

lemma sum_maxRecords_le (hmap : MapOk map) {l : List ImageRecord}
    (hl : ∀ r ∈ l, r.imageBase < r.stop) :
    (map.map fun e => maxRecords (l.filter fun r =>
      e.physicalStart ≤ r.imageBase ∧ r.stop ≤ e.stop)).sum ≤ maxRecords l := by
  induction l with
  | nil => simp [maxRecords]
  | cons r l ih =>
    have hspl : ∀ e : EfiMemoryDescriptor, maxRecords ((r :: l).filter fun r =>
        e.physicalStart ≤ r.imageBase ∧ r.stop ≤ e.stop) =
        (if e.physicalStart ≤ r.imageBase ∧ r.stop ≤ e.stop then 2 * r.codeSegmentCount + 1
          else 0) + maxRecords (l.filter fun r =>
            e.physicalStart ≤ r.imageBase ∧ r.stop ≤ e.stop) := by
      intro e
      by_cases hin : e.physicalStart ≤ r.imageBase ∧ r.stop ≤ e.stop
      · rw [List.filter_cons_of_pos (by simpa using hin), if_pos hin]
        rfl
      · rw [List.filter_cons_of_neg (by simpa using hin), if_neg hin, Nat.zero_add]
    have hone := sum_inside_le hmap (hl r (by simp)) (2 * r.codeSegmentCount + 1)
    have hrest := ih fun r hr => hl r (by simp [hr])
    have hmax : maxRecords (r :: l) = 2 * r.codeSegmentCount + 1 + maxRecords l := rfl
    simp only [hspl, List.sum_map_add, hmax]
    omega

lemma maxRecords_le {l : List ImageRecord} {c : ℕ} (h : ∀ r ∈ l, r.codeSegmentCount ≤ c) :
    maxRecords l ≤ (2 * c + 1) * l.length := by
  induction l with
  | nil => simp [maxRecords]
  | cons r l ih =>
    have hr := h r (by simp)
    have hl := ih fun r hr => h r (by simp [hr])
    have hmax : maxRecords (r :: l) = 2 * r.codeSegmentCount + 1 + maxRecords l := rfl
    rw [hmax, List.length_cons, Nat.mul_succ]
    omega

lemma slotsNeeded_le (hp : p.Ok) (hmap : MapOk map) :
    slotsNeeded p map ≤ map.length + p.additionalRecordCount := by
  have hsum : slotsNeeded p map = (map.map (maxSplit p)).sum + map.length := by
    simp [slotsNeeded, List.sum_map_add]
  have hle : (map.map (maxSplit p)).sum ≤ (map.map fun e =>
      maxRecords (coveredImages p e.physicalStart e.stop)).sum :=
    List.sum_le_sum fun e _ => Nat.sub_le _ _
  have hima := sum_maxRecords_le hmap fun r hr => (hp.records r hr).lt_stop
  have hmax := maxRecords_le hp.max
  simp only [coveredImages] at hle
  rw [hsum, Properties.additionalRecordCount, Properties.imageRecordCount]
  omega

end Edk2.PropertiesTable
