import Edk2.PropertiesTable.Model
import Edk2.Lib.Align

/-!
# The records of one split entry

What `SetNewRecord` and `SplitRecord` write for an entry: the code sections of the images inside
it and the data between them, in the order of their addresses.
-/

namespace Edk2.PropertiesTable

open Edk2.Pool (MemoryType efiRuntimeServicesCode efiRuntimeServicesData efiSizeToPages)

/-- The address behind the last page of a record. -/
def EfiMemoryDescriptor.stop (d : EfiMemoryDescriptor) : ℕ :=
  d.physicalStart + d.numberOfPages * 4096

/-- The address behind the last page of a code section. -/
def CodeSection.stop (s : CodeSection) : ℕ :=
  s.codeSegmentBase + efiSizeToPages s.codeSegmentSize * 4096

def ImageRecord.stop (r : ImageRecord) : ℕ := r.imageBase + r.imageSize

/-- The record describes the address `a`. -/
def EfiMemoryDescriptor.Has (d : EfiMemoryDescriptor) (a : ℕ) : Prop :=
  d.physicalStart ≤ a ∧ a < d.stop

instance (d : EfiMemoryDescriptor) (a : ℕ) : Decidable (d.Has a) :=
  inferInstanceAs (Decidable (_ ∧ _))

/-- The address lies in a page of the code section. -/
def CodeSection.Has (s : CodeSection) (a : ℕ) : Prop := s.codeSegmentBase ≤ a ∧ a < s.stop

instance (s : CodeSection) (a : ℕ) : Decidable (s.Has a) := inferInstanceAs (Decidable (_ ∧ _))

/-- The image lies inside the entry. -/
def ImageRecord.Inside (r : ImageRecord) (e : EfiMemoryDescriptor) : Prop :=
  e.physicalStart ≤ r.imageBase ∧ r.stop ≤ e.stop

/-- The memory map is sorted, its entries do not meet, are page aligned and end below `2 ^ 64`. -/
structure MapOk (map : List EfiMemoryDescriptor) : Prop where
  sorted : map.Pairwise fun e f => e.stop ≤ f.physicalStart
  aligned : ∀ e ∈ map, 4096 ∣ e.physicalStart
  bounded : ∀ e ∈ map, e.stop < 2 ^ 64

/-- The image consists of pages, ends below `2 ^ 64`, has code sections, and these pass the check
made before it is registered and start at pages. -/
structure ImageRecord.Ok (r : ImageRecord) : Prop where
  base : 4096 ∣ r.imageBase
  size : 4096 ∣ r.imageSize
  code : r.codeSegmentList ≠ []
  bounded : r.stop < 2 ^ 64
  valid : isImageRecordCodeSectionValid r = true
  aligned : ∀ s ∈ r.codeSegmentList, 4096 ∣ s.codeSegmentBase

/-- The image records are sorted and do not meet; `CodeSegmentCountMax` bounds their sections. -/
structure Properties.Ok (p : Properties) : Prop where
  records : ∀ r ∈ p.imageRecordList, r.Ok
  sorted : p.imageRecordList.Pairwise fun r r' => r.stop ≤ r'.imageBase
  max : ∀ r ∈ p.imageRecordList, r.codeSegmentCount ≤ p.codeSegmentCountMax

/-- Code sections that follow each other between two addresses. -/
def SectionsOk (stop : ℕ) : ℕ → List CodeSection → Prop
  | pos, [] => pos ≤ stop
  | pos, s :: rest =>
    pos ≤ s.codeSegmentBase ∧ 4096 ∣ s.codeSegmentBase ∧ s.codeSegmentBase < s.stop ∧
      SectionsOk stop s.stop rest

variable {p : Properties} {stop pos limit a n : ℕ} {s : CodeSection} {ss : List CodeSection}
  {r : ImageRecord} {rs : List ImageRecord} {old temp d e : EfiMemoryDescriptor} {w : NewRecords}

lemma efiSizeToPages_of_dvd (h : 4096 ∣ n) : efiSizeToPages n = n / 4096 := by
  simp [efiSizeToPages, efiPageSize, Nat.mod_eq_zero_of_dvd h]

lemma le_efiSizeToPages (n : ℕ) : n ≤ efiSizeToPages n * 4096 := by
  simp only [efiSizeToPages, efiPageSize]
  split <;> omega

lemma efiSizeToPages_le {k : ℕ} (h : n ≤ k * 4096) : efiSizeToPages n ≤ k := by
  simp only [efiSizeToPages, efiPageSize]
  split <;> omega

lemma CodeSection.dvd_stop (h : 4096 ∣ s.codeSegmentBase) : 4096 ∣ s.stop :=
  Nat.dvd_add h (Nat.dvd_mul_left _ _)

lemma CodeSection.stop_le (h : 4096 ∣ s.codeSegmentBase) (hlim : 4096 ∣ limit)
    (hle : s.codeSegmentBase + s.codeSegmentSize ≤ limit) : s.stop ≤ limit := by
  obtain ⟨b, hb⟩ := h
  obtain ⟨k, rfl⟩ := hlim
  have := efiSizeToPages_le (n := s.codeSegmentSize) (k := k - b) (by omega)
  unfold CodeSection.stop
  omega

lemma SectionsOk.le (h : SectionsOk stop pos ss) : pos ≤ stop := by
  induction ss generalizing pos with
  | nil => exact h
  | cons s rest ih =>
    obtain ⟨hle, -, hlt, hrest⟩ := h
    have := ih hrest
    omega

lemma sectionsOk_of_validLoop {last : Option CodeSection} (hstop : 4096 ∣ r.stop)
    (hbou : r.stop < 2 ^ 64) (hali : ∀ s ∈ ss, 4096 ∣ s.codeSegmentBase)
    (hfst : last = none → pos = r.imageBase)
    (hlast : ∀ t ∈ last, pos = t.stop ∧ 4096 ∣ t.codeSegmentBase) (hle : pos ≤ r.stop)
    (h : codeSectionValidLoop r last ss = true) : SectionsOk r.stop pos ss := by
  induction ss generalizing pos last with
  | nil => exact hle
  | cons s rest ih =>
    have hs := hali s (by simp)
    have hu : u64 (r.imageBase + r.imageSize) = r.stop := u64_of_lt hbou
    simp only [codeSectionValidLoop, hu] at h
    split_ifs at h with h₁ h₂ h₃ h₄ h₅
    have hsst := CodeSection.stop_le hs hstop (by omega)
    have hsize := le_efiSizeToPages s.codeSegmentSize
    refine ⟨?_, hs, by unfold CodeSection.stop; omega, ih (fun t ht => hali t (by simp [ht]))
      (by simp) (by rintro t ⟨⟩; exact ⟨rfl, hs⟩) hsst h⟩
    cases last with
    | none => rw [hfst rfl]; omega
    | some t =>
      obtain ⟨hpt, hta⟩ := hlast t rfl
      rw [hpt]
      refine CodeSection.stop_le hta hs ?_
      by_contra hover
      exact h₅ ⟨t, rfl, by omega⟩

lemma ImageRecord.Ok.dvd_stop (h : r.Ok) : 4096 ∣ r.stop := Nat.dvd_add h.base h.size

lemma ImageRecord.Ok.sectionsOk (h : r.Ok) (hle : pos ≤ r.imageBase) :
    SectionsOk r.stop pos r.codeSegmentList := by
  have hok := @sectionsOk_of_validLoop r.imageBase _ r none h.dvd_stop h.bounded h.aligned
    (fun _ => rfl) (by simp) (by unfold ImageRecord.stop; omega) h.valid
  cases hs : r.codeSegmentList with
  | nil =>
    rw [hs] at hok
    exact hle.trans hok.le
  | cons s rest =>
    rw [hs] at hok
    exact ⟨hle.trans hok.1, hok.2⟩

lemma ImageRecord.Ok.lt_stop (h : r.Ok) : r.imageBase < r.stop := by
  obtain ⟨s, rest, hs⟩ := List.exists_cons_of_ne_nil h.code
  have hok := h.sectionsOk le_rfl
  rw [hs] at hok
  obtain ⟨hle, -, hlt, hrest⟩ := hok
  have := hrest.le
  omega

/-! ### What is written -/

/-- The writer after it has counted the records `l`. -/
def NewRecords.append (w : NewRecords) (l : List EfiMemoryDescriptor) : NewRecords :=
  { w with buffer := w.buffer.write (w.first + w.count) l, count := w.count + l.length }

@[simp] lemma NewRecords.append_nil (w : NewRecords) : w.append [] = w := rfl

lemma NewRecords.append_append (w : NewRecords) (l l' : List EfiMemoryDescriptor) :
    (w.append l).append l' = w.append (l ++ l') := by
  simp only [append, List.length_append, Slots.write_append, Nat.add_assoc]

lemma NewRecords.store_advance (w : NewRecords) (d : EfiMemoryDescriptor) :
    (w.store d).advance = w.append [d] := rfl

lemma NewRecords.add_of_ne (h : d.numberOfPages ≠ 0) : w.add d = w.append [d] := by
  rw [add, if_pos h, store_advance]

lemma NewRecords.add_add (h : d.numberOfPages = 0) (he : e.numberOfPages ≠ 0) :
    (w.add d).add e = w.append [e] := by
  simp only [add, h, ne_eq, not_true, if_false, he, not_false_eq_true, if_true, store, advance,
    Slots.set_set]
  rfl

/-- The records of the code sections and of the data before each of them. -/
def sectionRecords (p : Properties) (temp : EfiMemoryDescriptor) :
    ℕ → List CodeSection → List EfiMemoryDescriptor
  | _, [] => []
  | pos, s :: rest =>
    (if pos < s.codeSegmentBase then [dataRecord p temp pos s.codeSegmentBase] else []) ++
      codeRecord p temp s :: sectionRecords p temp s.stop rest

/-- Where the code sections end. -/
def sectionsEnd : ℕ → List CodeSection → ℕ
  | pos, [] => pos
  | _, s :: rest => sectionsEnd s.stop rest

/-- The records from `pos` to `limit`: those of the sections and the data behind them. -/
def imageRecords (p : Properties) (temp : EfiMemoryDescriptor) (limit pos : ℕ)
    (ss : List CodeSection) : List EfiMemoryDescriptor :=
  sectionRecords p temp pos ss ++
    if sectionsEnd pos ss < limit then [dataRecord p temp (sectionsEnd pos ss) limit] else []

lemma SectionsOk.sectionsEnd_le (h : SectionsOk stop pos ss) : sectionsEnd pos ss ≤ stop := by
  induction ss generalizing pos with
  | nil => exact h
  | cons s rest ih => exact ih h.2.2.2

lemma pages_sub (hle : a ≤ n) (hn : n < 2 ^ 64) (ha : 4096 ∣ a) (hd : 4096 ∣ n) :
    efiSizeToPages (sub64 n a) = (n - a) / 4096 := by
  rw [sub64_of_le hle hn, efiSizeToPages_of_dvd (Nat.dvd_sub hd ha)]

lemma dataRecord_stop (hle : a ≤ n) (hn : n < 2 ^ 64) (ha : 4096 ∣ a) (hd : 4096 ∣ n) :
    (dataRecord p temp a n).stop = n := by
  have hmul := Nat.div_mul_cancel (Nat.dvd_sub hd ha)
  simp only [EfiMemoryDescriptor.stop, dataRecord, pages_sub hle hn ha hd]
  omega

@[simp] lemma codeRecord_stop : (codeRecord p temp s).stop = s.stop := rfl

lemma dataRecord_pages_ne (hlt : a < n) (hn : n < 2 ^ 64) (ha : 4096 ∣ a) (hd : 4096 ∣ n) :
    (dataRecord p temp a n).numberOfPages ≠ 0 := by
  have hstop := @dataRecord_stop p _ _ temp hlt.le hn ha hd
  intro h
  rw [EfiMemoryDescriptor.stop, h] at hstop
  simp only [dataRecord] at hstop
  omega

lemma codeRecord_pages_ne (h : s.codeSegmentBase < s.stop) :
    (codeRecord p temp s).numberOfPages ≠ 0 := by
  intro h0
  rw [CodeSection.stop, show efiSizeToPages s.codeSegmentSize = 0 from h0] at h
  omega

lemma dataRecord_congr (ht : temp.type = old.type) (ha : temp.attr = old.attr) :
    dataRecord p temp a n = dataRecord p old a n := by
  simp only [dataRecord, ht, ha]

lemma codeRecord_congr (ht : temp.type = old.type) (ha : temp.attr = old.attr) :
    codeRecord p temp s = codeRecord p old s := by
  simp only [codeRecord, ht, ha]

lemma efiPagesToSize_of_lt (h : n * 4096 < 2 ^ 64) : efiPagesToSize n = n * 4096 := u64_of_lt h

lemma physicalEnd_eq (h : d.stop < 2 ^ 64) : physicalEnd d = d.stop := by
  unfold EfiMemoryDescriptor.stop at h
  rw [physicalEnd, efiPagesToSize_of_lt (by omega), u64_of_lt h]
  rfl

/-- The record that is left to split after `temp` has been cut down to `[pos, stop)`. -/
structure Rest (old temp : EfiMemoryDescriptor) (stop pos : ℕ) : Prop where
  type : temp.type = old.type
  attr : temp.attr = old.attr
  start : temp.physicalStart = pos
  pages : temp.stop = stop

lemma codeSectionLoop_spec (h : SectionsOk limit pos ss) (hlim : limit ≤ stop)
    (hstop : stop < 2 ^ 64) (hd : 4096 ∣ stop) (hpos : 4096 ∣ pos)
    (htemp : Rest old temp stop pos) :
    ∃ temp', Rest old temp' stop (sectionsEnd pos ss) ∧
      codeSectionLoop p stop ss temp w = (temp', w.append (sectionRecords p old pos ss)) := by
  induction ss generalizing pos temp w with
  | nil => exact ⟨temp, htemp, rfl⟩
  | cons s rest ih =>
    obtain ⟨hle, hs, hlt, hrest⟩ := h
    have hsst := hrest.le
    have hdata := dataRecord_congr (p := p) (a := pos) (n := s.codeSegmentBase) htemp.type
      htemp.attr
    have hcode := codeRecord_congr (p := p) (s := s) htemp.type htemp.attr
    have hsta : u64 (s.codeSegmentBase + efiPagesToSize (efiSizeToPages s.codeSegmentSize)) =
        s.stop := by
      have hsum : s.codeSegmentBase + efiSizeToPages s.codeSegmentSize * 4096 < 2 ^ 64 :=
        lt_of_le_of_lt (hsst.trans hlim) hstop
      rw [efiPagesToSize_of_lt (by omega)]
      exact u64_of_lt hsum
    -- the two records of this section
    have hadd : (w.add (dataRecord p temp temp.physicalStart s.codeSegmentBase)).add
        (codeRecord p temp s) = w.append
          ((if pos < s.codeSegmentBase then [dataRecord p old pos s.codeSegmentBase] else []) ++
            [codeRecord p old s]) := by
      rw [htemp.start, hdata, hcode]
      rcases hle.lt_or_eq with hgap | rfl
      · rw [NewRecords.add_of_ne (dataRecord_pages_ne hgap (by omega) hpos hs),
          NewRecords.add_of_ne (codeRecord_pages_ne hlt), NewRecords.append_append, if_pos hgap]
      · rw [if_neg (lt_irrefl _), List.nil_append]
        refine NewRecords.add_add ?_ (codeRecord_pages_ne hlt)
        have hsame : s.codeSegmentBase < 2 ^ 64 := by omega
        simp only [dataRecord]
        rw [sub64_of_le le_rfl hsame, Nat.sub_self]
        rfl
    simp only [codeSectionLoop, hadd, hsta]
    rw [if_pos (htemp.start ▸ hle)]
    have hpag := pages_sub (a := s.stop) (n := stop) (by omega) hstop (CodeSection.dvd_stop hs) hd
    have hmul := Nat.div_mul_cancel (Nat.dvd_sub hd (CodeSection.dvd_stop hs))
    have hnext : Rest old { temp with
        physicalStart := s.stop, numberOfPages := efiSizeToPages (sub64 stop s.stop) }
        stop s.stop := by
      refine ⟨htemp.type, htemp.attr, rfl, ?_⟩
      simp only [EfiMemoryDescriptor.stop, hpag]
      omega
    by_cases hnone : efiSizeToPages (sub64 stop s.stop) = 0
    · -- the section ends with the entry, so it is the last one
      rw [if_pos hnone]
      cases rest with
      | nil =>
        refine ⟨_, hnext, ?_⟩
        simp only [sectionRecords]
      | cons s' rest =>
        obtain ⟨hle', -, hlt', hres'⟩ := hrest
        have := hres'.le
        rw [hpag] at hnone
        omega
    · rw [if_neg hnone]
      obtain ⟨temp', htem', hloop⟩ := ih hrest (CodeSection.dvd_stop hs) hnext
        (w := w.append ((if pos < s.codeSegmentBase then [dataRecord p old pos s.codeSegmentBase]
          else []) ++ [codeRecord p old s]))
      refine ⟨temp', htem', ?_⟩
      rw [hloop, NewRecords.append_append, List.append_assoc]
      rfl

lemma setNewRecord_spec (hr : r.Ok) (hle : pos ≤ r.imageBase) (hlim : r.stop ≤ stop)
    (hstop : stop < 2 ^ 64) (hd : 4096 ∣ stop) (hpos : 4096 ∣ pos)
    (htemp : Rest old temp stop pos) :
    setNewRecord p r temp w = w.append (imageRecords p old r.stop pos r.codeSegmentList) := by
  obtain ⟨temp', htem', hloop⟩ := codeSectionLoop_spec (p := p) (w := w) (hr.sectionsOk hle) hlim
    hstop hd hpos htemp
  have hend : physicalEnd temp = stop := by
    rw [physicalEnd_eq (htemp.pages ▸ hstop), htemp.pages]
  have hima : u64 (r.imageBase + r.imageSize) = r.stop := u64_of_lt hr.bounded
  simp only [setNewRecord, hend, hloop, hima, htem'.start]
  rw [dataRecord_congr htem'.type htem'.attr, NewRecords.store_advance, imageRecords]
  split
  · rw [NewRecords.append_append]
  · rw [List.append_nil]

/-- The images inside an entry, from `pos` to `stop`. -/
def coveredImages (p : Properties) (pos stop : ℕ) : List ImageRecord :=
  p.imageRecordList.filter fun r => pos ≤ r.imageBase ∧ r.stop ≤ stop

lemma getImageRecordByAddress_eq (hp : p.Ok) (hle : pos ≤ stop) (hstop : stop < 2 ^ 64) :
    getImageRecordByAddress p pos (sub64 stop pos) = (coveredImages p pos stop).head? := by
  have hsum : u64 (pos + sub64 stop pos) = stop := by
    rw [sub64_of_le hle hstop, Nat.add_sub_cancel' hle]
    exact u64_of_lt hstop
  rw [coveredImages, getImageRecordByAddress, hsum, ← List.head?_filter]
  refine congrArg List.head? (List.filter_congr fun r hr => ?_)
  have hend : u64 (r.imageBase + r.imageSize) = r.stop := u64_of_lt (hp.records r hr).bounded
  rw [hend]

lemma filter_tail {l : List ImageRecord} (hsor : l.Pairwise fun r r' => r.stop ≤ r'.imageBase)
    (hpos : ∀ r ∈ l, r.imageBase < r.stop)
    (h : l.filter (fun r => pos ≤ r.imageBase ∧ r.stop ≤ stop) = r :: rs) :
    l.filter (fun r' => r.stop ≤ r'.imageBase ∧ r'.stop ≤ stop) = rs := by
  induction l with
  | nil => simp at h
  | cons x l ih =>
    rw [List.pairwise_cons] at hsor
    have hx := hpos x (by simp)
    by_cases hfit : pos ≤ x.imageBase ∧ x.stop ≤ stop
    · grind [List.filter_cons_of_pos, List.cons.injEq, List.filter_cons_of_neg, List.filter_congr]
    · grind [List.filter_cons_of_neg, List.mem_of_mem_filter]

lemma coveredImages_tail (hp : p.Ok) (h : coveredImages p pos stop = r :: rs) :
    coveredImages p r.stop stop = rs :=
  filter_tail hp.sorted (fun r hr => (hp.records r hr).lt_stop) h

lemma mem_coveredImages : r ∈ coveredImages p pos stop ↔
    r ∈ p.imageRecordList ∧ pos ≤ r.imageBase ∧ r.stop ≤ stop := by
  simp [coveredImages]

lemma coveredImages_cons (hp : p.Ok) (h : coveredImages p pos stop = r :: rs) :
    r.Ok ∧ pos ≤ r.imageBase ∧ r.stop ≤ stop := by
  obtain ⟨hr, hle, hlim⟩ := mem_coveredImages.mp (h ▸ List.mem_cons_self : r ∈ _)
  exact ⟨hp.records r hr, hle, hlim⟩

lemma coveredImages_self (hp : p.Ok) : coveredImages p stop stop = [] := by
  rw [coveredImages, List.filter_eq_nil_iff]
  intro r hr
  have := (hp.records r hr).lt_stop
  simp
  omega

/-- The records that the images could take: two for each code section and one more each. -/
def maxRecords (rs : List ImageRecord) : ℕ := (rs.map fun r => 2 * r.codeSegmentCount + 1).sum

lemma maxSplitLoop_spec (hp : p.Ok) (hstop : stop < 2 ^ 64) (hle : pos ≤ stop)
    (h : coveredImages p pos stop = rs) {fuel : ℕ} (hfuel : rs.length < fuel) (count : ℕ) :
    maxSplitLoop p stop fuel pos count = .ok (count + maxRecords rs) := by
  induction rs generalizing pos fuel count with
  | nil =>
    obtain ⟨fuel, rfl⟩ := Nat.exists_eq_succ_of_ne_zero (by omega : fuel ≠ 0)
    simp [maxSplitLoop, getImageRecordByAddress_eq hp hle hstop, h, maxRecords]
  | cons r rs ih =>
    obtain ⟨fuel, rfl⟩ := Nat.exists_eq_succ_of_ne_zero (by omega : fuel ≠ 0)
    obtain ⟨hr, -, hlim⟩ := coveredImages_cons hp h
    have hend : u64 (r.imageBase + r.imageSize) = r.stop := u64_of_lt hr.bounded
    have htail := coveredImages_tail hp h
    have hsum : count + maxRecords (r :: rs) =
        count + (2 * r.codeSegmentCount + 1) + maxRecords rs := by
      simp only [maxRecords, List.map_cons, List.sum_cons]
      omega
    simp only [maxSplitLoop, getImageRecordByAddress_eq hp hle hstop, h, List.head?_cons, hend]
    by_cases hlt : r.stop < stop
    · rw [if_pos hlt, ih hlim htail (by simpa using hfuel), hsum]
    · have heq : r.stop = stop := by omega
      rw [heq, coveredImages_self hp] at htail
      subst htail
      rw [if_neg hlt, hsum]
      rfl

lemma getMaxSplitRecordCount_spec (hp : p.Ok) (hstop : old.stop < 2 ^ 64) :
    getMaxSplitRecordCount p old =
      .ok (maxRecords (coveredImages p old.physicalStart old.stop) - 1) := by
  have hfuel : (coveredImages p old.physicalStart old.stop).length < p.imageRecordCount + 1 :=
    Nat.lt_succ_of_le (List.length_filter_le _ _)
  rw [getMaxSplitRecordCount, physicalEnd_eq hstop,
    maxSplitLoop_spec hp hstop (Nat.le_add_right _ _) rfl hfuel]
  simp [Except.bind]

/-! ### One entry -/

/-- The records of an entry from `pos` on, where the images `rs` lie inside it. -/
def entryRecords (p : Properties) (old : EfiMemoryDescriptor) (stop : ℕ) :
    ℕ → List ImageRecord → List EfiMemoryDescriptor
  | _, [] => []
  | pos, [r] => imageRecords p old stop pos r.codeSegmentList
  | pos, r :: r' :: rs =>
    imageRecords p old r.stop pos r.codeSegmentList ++ entryRecords p old stop r.stop (r' :: rs)

lemma sectionRecords_concat (p : Properties) (old : EfiMemoryDescriptor) (pos : ℕ)
    (h : ss ≠ []) : ∃ l s, sectionRecords p old pos ss = l ++ [codeRecord p old s] := by
  induction ss generalizing pos with
  | nil => exact absurd rfl h
  | cons s rest ih =>
    cases rest with
    | nil => exact ⟨_, s, rfl⟩
    | cons s' rest =>
      obtain ⟨l, t, hl⟩ := ih s.stop (by simp)
      refine ⟨(if pos < s.codeSegmentBase then [dataRecord p old pos s.codeSegmentBase] else []) ++
        codeRecord p old s :: l, t, ?_⟩
      rw [sectionRecords, hl, List.append_assoc, List.cons_append]

lemma NewRecords.append_last (w : NewRecords) (l : List EfiMemoryDescriptor) :
    (w.append (l ++ [d])).buffer ((w.append (l ++ [d])).first + (w.append (l ++ [d])).count - 1) =
      d := by
  have hslot : w.first + (w.count + (l ++ [d]).length) - 1 = w.first + w.count + l.length := by
    simp only [List.length_append, List.length_singleton]
    omega
  simp only [append, hslot]
  rw [Slots.write_add (by simp)]
  simp

lemma NewRecords.append_set (w : NewRecords) (l : List EfiMemoryDescriptor) :
    { w.append (l ++ [d]) with
      buffer := (w.append (l ++ [d])).buffer.set
        ((w.append (l ++ [d])).first + (w.append (l ++ [d])).count - 1) e } =
      w.append (l ++ [e]) := by
  have hslot : w.first + (w.count + (l.length + 1)) - 1 = w.first + w.count + l.length := by
    omega
  simp only [append, Slots.write_append, Slots.write_cons, Slots.write_nil, List.length_append,
    List.length_singleton, hslot, Slots.set_set]

lemma or_and_self (x y : BitVec 64) : (x ||| y) &&& y = y := by
  ext i
  simp only [BitVec.getElem_and, BitVec.getElem_or]
  cases y[i] <;> simp

lemma and_not_or_and (x y d : BitVec 64) : ((x &&& ~~~y) ||| d) &&& y = d &&& y := by
  ext i
  simp only [BitVec.getElem_and, BitVec.getElem_or, BitVec.getElem_not]
  cases y[i] <;> simp

lemma dataRecord_xp : (dataRecord p old a n).attr &&& efiMemoryXp ≠ 0 := by
  simp only [dataRecord, or_and_self]
  decide

lemma codeRecord_xp : (codeRecord p old s).attr &&& efiMemoryXp = 0 := by
  simp only [codeRecord, and_not_or_and]
  decide

lemma codeRecord_ro : (codeRecord p old s).attr &&& efiMemoryRo = efiMemoryRo := by
  simp only [codeRecord, or_and_self]

lemma isLastRecordData_dataRecord : isLastRecordData p (dataRecord p old a n) = true := by
  have hxp := @dataRecord_xp p a n old
  unfold isLastRecordData
  split
  · simp [dataRecord, *]
  · simpa using hxp

lemma isLastRecordData_codeRecord : isLastRecordData p (codeRecord p old s) = false := by
  have hxp := @codeRecord_xp p s old
  unfold isLastRecordData
  split
  · simp only [codeRecord, *, if_true]
    decide
  · simpa using hxp

lemma closeRecord_spec (hr : r.Ok) (hle : pos ≤ r.imageBase) (hlt : r.stop < stop)
    (htemp : Rest old temp stop r.stop) (hpag : temp.numberOfPages =
      efiSizeToPages (sub64 stop r.stop)) :
    closeRecord p stop temp (w.append (imageRecords p old r.stop pos r.codeSegmentList)) =
      w.append (imageRecords p old stop pos r.codeSegmentList) := by
  have hend := (hr.sectionsOk hle).sectionsEnd_le
  by_cases hgap : sectionsEnd pos r.codeSegmentList < r.stop
  · -- the last record is data
    rw [imageRecords, imageRecords, if_pos hgap, if_pos (by omega)]
    simp only [closeRecord, NewRecords.append_last, isLastRecordData_dataRecord, if_true]
    rw [NewRecords.append_set]
    rfl
  · -- the last record is code
    have heq : sectionsEnd pos r.codeSegmentList = r.stop := by omega
    obtain ⟨l, s, hl⟩ := sectionRecords_concat p old pos hr.code
    rw [imageRecords, imageRecords, if_neg hgap, List.append_nil, if_pos (by omega), heq, hl]
    simp only [closeRecord, NewRecords.append_last, isLastRecordData_codeRecord, Bool.false_eq_true,
      if_false, NewRecords.store_advance]
    rw [NewRecords.append_append]
    simp only [dataRecord, htemp.type, htemp.attr, htemp.start, hpag]

lemma splitRecordLoop_image (hp : p.Ok) (hstop : stop < 2 ^ 64) (hd : 4096 ∣ stop)
    (hpos : 4096 ∣ pos) (htemp : Rest old temp stop pos)
    (h : coveredImages p pos stop = r :: rs) (fuel : ℕ) (found : Bool) :
    ∃ temp', Rest old temp' stop r.stop ∧
      temp'.numberOfPages = efiSizeToPages (sub64 stop r.stop) ∧
      splitRecordLoop p stop (fuel + 1) found temp w =
        if r.stop < stop then splitRecordLoop p stop fuel true temp'
          (w.append (imageRecords p old r.stop pos r.codeSegmentList))
        else .ok (w.append (imageRecords p old r.stop pos r.codeSegmentList)) := by
  obtain ⟨hr, hle, hlim⟩ := coveredImages_cons hp h
  have hend : u64 (r.imageBase + r.imageSize) = r.stop := u64_of_lt hr.bounded
  have hpag := pages_sub hlim hstop hr.dvd_stop hd
  have hmul := Nat.div_mul_cancel (Nat.dvd_sub hd hr.dvd_stop)
  refine ⟨{ temp with
    physicalStart := r.stop, numberOfPages := efiSizeToPages (sub64 stop r.stop) },
    ⟨htemp.type, htemp.attr, rfl, ?_⟩, rfl, ?_⟩
  · simp only [EfiMemoryDescriptor.stop, hpag]
    omega
  · have hlt := hr.lt_stop
    simp only [splitRecordLoop, htemp.start,
      getImageRecordByAddress_eq hp (by omega : pos ≤ stop) hstop, h, List.head?_cons, hend,
      setNewRecord_spec hr hle hlim hstop hd hpos htemp]

lemma splitRecordLoop_spec (hp : p.Ok) (hstop : stop < 2 ^ 64) (hd : 4096 ∣ stop)
    (hpos : 4096 ∣ pos) (htemp : Rest old temp stop pos)
    (h : coveredImages p pos stop = r :: rs) {fuel : ℕ} (hfuel : rs.length + 1 < fuel)
    (found : Bool) :
    splitRecordLoop p stop fuel found temp w =
      .ok (w.append (entryRecords p old stop pos (r :: rs))) := by
  induction rs generalizing pos temp r w fuel found with
  | nil =>
    obtain ⟨fuel, rfl⟩ := Nat.exists_eq_add_of_le' (show 1 + 1 ≤ fuel from hfuel)
    obtain ⟨hr, hle, hlim⟩ := coveredImages_cons hp h
    obtain ⟨temp', htem', hpag, hrou⟩ := splitRecordLoop_image (w := w) hp hstop hd hpos htemp
      h (fuel + 1) found
    rw [← Nat.add_assoc, hrou, entryRecords]
    by_cases hlt : r.stop < stop
    · simp [hlt, splitRecordLoop, htem'.start, getImageRecordByAddress_eq hp hlim hstop,
        coveredImages_tail hp h, List.head?_nil, closeRecord_spec hr hle hlt htem' hpag]
    · have heq : r.stop = stop := by omega
      rw [if_neg hlt, heq]
  | cons r' rs ih =>
    obtain ⟨fuel, rfl⟩ := Nat.exists_eq_add_of_le' (by omega : 1 ≤ fuel)
    obtain ⟨hr, -, -⟩ := coveredImages_cons hp h
    have htail := coveredImages_tail hp h
    obtain ⟨hr', hle', hlim'⟩ := coveredImages_cons hp htail
    have hlt := hr'.lt_stop
    obtain ⟨temp', htem', -, hrou⟩ := splitRecordLoop_image (w := w) hp hstop hd hpos htemp h
      fuel found
    rw [hrou, if_pos (by omega), ih hr.dvd_stop htem' htail (by simpa using hfuel),
      NewRecords.append_append]
    rfl

/-- What an entry is replaced by. -/
def splitRecords (p : Properties) (e : EfiMemoryDescriptor) : List EfiMemoryDescriptor :=
  if coveredImages p e.physicalStart e.stop = [] then [e]
  else entryRecords p e e.stop e.physicalStart (coveredImages p e.physicalStart e.stop)

/-- How many slots more than its own the split of an entry is given. -/
def maxSplit (p : Properties) (e : EfiMemoryDescriptor) : ℕ :=
  maxRecords (coveredImages p e.physicalStart e.stop) - 1

lemma maxSplit_eq_zero_iff (hp : p.Ok) :
    maxSplit p e = 0 ↔ coveredImages p e.physicalStart e.stop = [] := by
  unfold maxSplit
  rcases h : coveredImages p e.physicalStart e.stop with _ | ⟨r, rs⟩
  · simp [maxRecords]
  · have hcode := List.length_pos_iff.mpr (coveredImages_cons hp h).1.code
    simp only [maxRecords, List.map_cons, List.sum_cons, ImageRecord.codeSegmentCount,
      reduceCtorEq, iff_false]
    omega

lemma imageRecords_ne_nil (hr : r.Ok) : imageRecords p old limit pos r.codeSegmentList ≠ [] := by
  obtain ⟨l, s, hl⟩ := sectionRecords_concat p old pos hr.code
  simp [imageRecords, hl]

lemma splitRecords_ne_nil (hp : p.Ok) : splitRecords p e ≠ [] := by
  unfold splitRecords
  split
  · simp
  · rcases h : coveredImages p e.physicalStart e.stop with _ | ⟨r, rs⟩
    · contradiction
    have hr := (coveredImages_cons hp h).1
    cases rs with
    | nil => exact imageRecords_ne_nil hr
    | cons r' rs => exact List.append_ne_nil_of_left_ne_nil (imageRecords_ne_nil hr) _

lemma splitRecord_spec (hp : p.Ok) {buffer : Slots EfiMemoryDescriptor} {k new : ℕ}
    (he : buffer k = e) (hali : 4096 ∣ e.physicalStart) (hbou : e.stop < 2 ^ 64) :
    splitRecord p buffer k new (maxSplit p e) =
      .ok (buffer.write new (splitRecords p e), (splitRecords p e).length - 1) := by
  have hzero := maxSplit_eq_zero_iff (e := e) hp
  unfold splitRecord
  rw [he]
  rcases h : coveredImages p e.physicalStart e.stop with _ | ⟨r, rs⟩
  · rw [if_pos (hzero.mpr h), splitRecords, if_pos h]
    rfl
  · have hfuel : rs.length + 1 < p.imageRecordCount + 1 := by
      have hle : (coveredImages p e.physicalStart e.stop).length ≤ p.imageRecordCount :=
        List.length_filter_le _ _
      rw [h, List.length_cons] at hle
      omega
    have hrest : Rest e e e.stop e.physicalStart := ⟨rfl, rfl, rfl, rfl⟩
    have hne := splitRecords_ne_nil (e := e) hp
    have hlen := List.length_pos_iff.mpr hne
    rw [if_neg (by rw [hzero, h]; simp), physicalEnd_eq hbou, splitRecordLoop_spec hp hbou
      (Nat.dvd_add hali (Nat.dvd_mul_left _ _)) hali hrest h hfuel]
    have heq : splitRecords p e = entryRecords p e e.stop e.physicalStart (r :: rs) := by
      rw [splitRecords, if_neg (by simp [h]), h]
    rw [← heq]
    simp only [Except.bind, NewRecords.append, Nat.zero_add, Nat.add_zero]
    rw [if_neg (by omega)]

end Edk2.PropertiesTable