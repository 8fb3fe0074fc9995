import Edk2.Fat.CacheAccess

/-!
# Runs of the cache

As long as no page is loaded in vain over another one, every access sees what was written last. If
the load of a page fails, its group keeps the size of the page that it held, but has the number of
the new one: the next access takes the old page for the new one.
-/

namespace Edk2.Fat

open Overlay

variable {v : Volume} {disk₀ : ℕ → Byte} {answers : ℕ → Answer} {s s' : State} {spec : Spec}
  {type : CacheType} {write : Bool} {p offset size position : ℕ} {buffer : Buffer}
  {r : EfiStatus × State × Buffer}

/-- The aligned pages of an access. -/
def alignedPart (v : Volume) (s : State) (type : CacheType) (write : Bool) (pageNo size : ℕ)
    (buffer : Buffer) (position : ℕ) : EfiStatus × State × Buffer :=
  if 0 < size / v.pageSize type then
    accessAligned v s write pageNo (size / v.pageSize type) buffer position
  else (.success, s, buffer)

/-- The page behind the aligned ones can be loaded. -/
def CarefulPages (v : Volume) (s : State) (type : CacheType) (write : Bool) (pageNo size : ℕ)
    (buffer : Buffer) (position : ℕ) : Prop :=
  (alignedPart v s type write pageNo size buffer position).1.isError = false →
    0 < size % v.pageSize type →
    LoadSafe v (alignedPart v s type write pageNo size buffer position).2.1 type
      (pageNo + size / v.pageSize type)

/-- No load of a page fails while the group of the page holds another one. -/
def Careful (v : Volume) (s : State) (type : CacheType) (write : Bool) (offset size : ℕ)
    (buffer : Buffer) : Prop :=
  let entryPos := offset - v.baseAddress type
  let pageNo := entryPos / v.pageSize type
  let underRun := entryPos % v.pageSize type
  let length := min (v.pageSize type - underRun) size
  let first := fatAccessUnalignedCachePage v s type write pageNo underRun length buffer 0
  if 0 < underRun then
    LoadSafe v s type pageNo ∧ (first.1.isError = false →
      CarefulPages v first.2.1 type write (pageNo + 1) (size - length) first.2.2 length)
  else CarefulPages v s type write pageNo size buffer 0

lemma accessPages_eq : accessPages v s type write p size buffer position =
    if 0 < size / v.pageSize type ∧ type = .fat then none
    else
      let aligned := alignedPart v s type write p size buffer position
      if aligned.1.isError then some aligned
      else if 0 < size % v.pageSize type then
        some (fatAccessUnalignedCachePage v aligned.2.1 type write (p + size / v.pageSize type) 0
          (size % v.pageSize type) aligned.2.2
          (position + size / v.pageSize type * v.pageSize type))
      else some (.success, aligned.2.1, aligned.2.2) := rfl

lemma accessPages_zero :
    accessPages v s type write p 0 buffer position = some (.success, s, buffer) := by
  simp [accessPages_eq, alignedPart, EfiStatus.isError]

lemma part_aligned (hv : v.Valid) (h : Inv v disk₀ s spec)
    (htype : ¬(0 < size / v.pageSize type ∧ type = .fat))
    (hfits : 0 < size → v.entryPos type p + size ≤ v.limitAddress type) :
    Part v disk₀ spec write (v.entryPos type p) (size / v.pageSize type * v.pageSize type) buffer
      position (alignedPart v s type write p size buffer position) := by
  unfold alignedPart
  split_ifs with hcnt
  · cases type with
    | fat => exact absurd ⟨hcnt, rfl⟩ htype
    | data =>
      have hle := Nat.div_mul_le_self size (v.pageSize .data)
      have hlim := hfits (Nat.pos_of_ne_zero fun hzero => by simp [hzero] at hcnt)
      have hfit' : v.entryPos .data p + size / v.pageSize .data * v.pageSize .data ≤
          v.volumeSize := Nat.le_trans (Nat.add_le_add_left hle _) hlim
      cases write with
      | true => exact part_aligned_write hv h hfit'
      | false => exact part_aligned_read h hfit'
  · rw [Nat.eq_zero_of_not_pos hcnt, Nat.zero_mul]
    exact part_nil h

lemma part_accessPages (hv : v.Valid) (h : Inv v disk₀ s spec)
    (hcar : CarefulPages v s type write p size buffer position)
    (hfits : 0 < size → v.entryPos type p + size ≤ v.limitAddress type)
    (hstep : accessPages v s type write p size buffer position = some r) :
    Part v disk₀ spec write (v.entryPos type p) size buffer position r := by
  have hsize : size = size / v.pageSize type * v.pageSize type + size % v.pageSize type :=
    (Nat.div_add_mod' size (v.pageSize type)).symm
  rw [accessPages_eq] at hstep
  by_cases htype : 0 < size / v.pageSize type ∧ type = .fat
  · rw [if_pos htype] at hstep
    cases hstep
  · rw [if_neg htype] at hstep
    have hali : Part v disk₀ spec write (v.entryPos type p)
        (size / v.pageSize type * v.pageSize type) buffer position
        (alignedPart v s type write p size buffer position) := part_aligned hv h htype hfits
    dsimp only at hstep
    cases hst : (alignedPart v s type write p size buffer position).1.isError with
    | true =>
      rw [hst, if_pos rfl] at hstep
      obtain rfl := Option.some.inj hstep
      have hstop := hali.stop hst (size % v.pageSize type)
      rwa [Nat.div_add_mod'] at hstop
    | false =>
      rw [hst, if_neg Bool.false_ne_true] at hstep
      by_cases hover : 0 < size % v.pageSize type
      · rw [if_pos hover] at hstep
        obtain rfl := Option.some.inj hstep
        have hent : v.entryPos type (p + size / v.pageSize type) =
            v.entryPos type p + size / v.pageSize type * v.pageSize type := by
          unfold Volume.entryPos
          rw [Nat.add_mul, Nat.add_assoc]
        have hlt := Nat.mod_lt size (v.pageSize_pos type)
        have hlim := hfits (by omega)
        have hreal : 0 + size % v.pageSize type ≤ v.realSize type (p + size / v.pageSize type) := by
          unfold Volume.realSize
          rw [hent]
          omega
        have hlast : ∀ spec', Inv v disk₀
            (alignedPart v s type write p size buffer position).2.1 spec' →
            Part v disk₀ spec' write
              (v.entryPos type p + size / v.pageSize type * v.pageSize type)
              (size % v.pageSize type) (alignedPart v s type write p size buffer position).2.2
              (position + size / v.pageSize type * v.pageSize type)
              (fatAccessUnalignedCachePage v
                (alignedPart v s type write p size buffer position).2.1 type write
                (p + size / v.pageSize type) 0 (size % v.pageSize type)
                (alignedPart v s type write p size buffer position).2.2
                (position + size / v.pageSize type * v.pageSize type)) := by
          intro spec' hinv
          rw [← hent]
          exact part_unaligned hv hinv (hcar hst hover) (by omega) hreal
        have hseq := hali.seq hst hlast
        rwa [Nat.div_add_mod'] at hseq
      · rw [if_neg hover] at hstep
        obtain rfl := Option.some.inj hstep
        have hseq := hali.seq hst fun spec' hinv => part_nil hinv
        grind

lemma part_accessCache (hv : v.Valid) (h : Inv v disk₀ s spec)
    (hcar : Careful v s type write offset size buffer) (hbase : v.baseAddress type ≤ offset)
    (hlim : offset + size ≤ v.limitAddress type)
    (hstep : fatAccessCache v s type write offset size buffer = some r) :
    Part v disk₀ spec write offset size buffer 0 r := by
  have hadd : v.entryPos type ((offset - v.baseAddress type) / v.pageSize type) +
      (offset - v.baseAddress type) % v.pageSize type = offset :=
    Volume.entryPos_add_offsetOf hbase
  have hlt := Nat.mod_lt (offset - v.baseAddress type) (v.pageSize_pos type)
  unfold fatAccessCache at hstep
  unfold Careful at hcar
  dsimp only at hstep hcar
  generalize hno : (offset - v.baseAddress type) / v.pageSize type = pageNo at *
  generalize hund : (offset - v.baseAddress type) % v.pageSize type = underRun at *
  by_cases hzero : 0 < underRun
  · rw [if_pos hzero] at hstep hcar
    obtain ⟨hsafe, hpag⟩ := hcar
    have hreal : underRun + min (v.pageSize type - underRun) size ≤ v.realSize type pageNo := by
      unfold Volume.realSize
      omega
    generalize hlen : min (v.pageSize type - underRun) size = length at *
    have hfst : Part v disk₀ spec write (v.entryPos type pageNo + underRun) length buffer 0
        (fatAccessUnalignedCachePage v s type write pageNo underRun length buffer 0) :=
      part_unaligned hv h hsafe (by omega) hreal
    generalize fatAccessUnalignedCachePage v s type write pageNo underRun length buffer 0 = first
      at *
    rw [hadd] at hfst
    have hsize : length + (size - length) = size := by omega
    cases hst : first.1.isError with
    | true =>
      rw [hst, if_pos rfl] at hstep
      obtain rfl := Option.some.inj hstep
      have hstop := hfst.stop hst (size - length)
      rwa [hsize] at hstop
    | false =>
      rw [hst, if_neg Bool.false_ne_true] at hstep
      have hrest : ∀ spec', Inv v disk₀ first.2.1 spec' →
          Part v disk₀ spec' write (offset + length) (size - length) first.2.2 (0 + length) r := by
        intro spec' hinv
        rw [Nat.zero_add]
        by_cases hmore : size - length = 0
        · rw [hmore, accessPages_zero] at hstep
          obtain rfl := Option.some.inj hstep
          rw [hmore]
          exact part_nil hinv
        · have hent : v.entryPos type (pageNo + 1) = offset + length := by
            grind [Nat.succ_mul, Volume.entryPos]
          rw [← hent]
          refine part_accessPages hv hinv (hpag hst) (fun _ => ?_) hstep
          rw [hent]
          omega
      have hseq := hfst.seq hst hrest
      rwa [hsize] at hseq
  · rw [if_neg hzero] at hstep hcar
    have hund : underRun = 0 := Nat.eq_zero_of_not_pos hzero
    rw [hund, Nat.add_zero] at hadd
    have hpart := part_accessPages hv h hcar (fun _ => by rwa [hadd]) hstep
    rwa [hadd] at hpart

/-! ### Flushing -/

/-- The page of a group need not be written back. -/
def State.Clean (s : State) (type : CacheType) (g : ℕ) : Prop :=
  0 < ((s.cache type).tag g).realSize → ((s.cache type).tag g).dirty = false

lemma Inv.flushGroups {list : List ℕ} {status : EfiStatus} (hv : v.Valid)
    (h : Inv v disk₀ s spec) (hstep : flushGroups v type list s = (status, s')) :
    Inv v disk₀ s' spec ∧ (∀ type', type' ≠ type → s'.cache type' = s.cache type') ∧
      (s'.cache type).dirty = (s.cache type).dirty ∧
      (status.isError = false → ∀ g, g ∈ list ∨ s.Clean type g → s'.Clean type g) := by
  induction list generalizing s with
  | nil =>
    obtain ⟨rfl, rfl⟩ := Prod.mk.inj hstep
    grind
  | cons g rest ih =>
    rw [Fat.flushGroups] at hstep
    rcases hevi : Fat.evictPage v s type g with ⟨status₁, s₁⟩
    obtain ⟨hinv, hback, hcle⟩ := h.evictPage hv hevi
    rw [hevi] at hstep
    dsimp only at hstep
    cases hst : status₁.isError with
    | true =>
      rw [hst, if_pos rfl] at hstep
      obtain ⟨rfl, rfl⟩ := Prod.mk.inj hstep
      refine ⟨hinv, hback.others, hback.dirty, fun hok => ?_⟩
      rw [hst] at hok
      cases hok
    | false =>
      rw [hst, if_neg Bool.false_ne_true] at hstep
      obtain ⟨hinv', hoth, hdir, hcle'⟩ := ih hinv hstep
      refine ⟨hinv', fun type' hne => (hoth type' hne).trans (hback.others type' hne),
        hdir.trans hback.dirty, fun hok g' hg' => ?_⟩
      apply hcle' hok
      by_cases hg : g' = g
      · rw [hg]
        exact Or.inr (hcle hst)
      · refine hg'.imp (fun hmem => (List.mem_cons.mp hmem).resolve_left hg) fun hold => ?_
        rw [State.Clean, hback.tag g' hg]
        exact hold

lemma Inv.setDirty (h : Inv v disk₀ s spec) (hcle : ∀ g, s.Clean type g) (dirty : Bool) :
    Inv v disk₀ (s.setDirty type dirty) spec := by
  have htag : ∀ type', ((s.setDirty type dirty).cache type').tag = (s.cache type').tag := by
    intro type'
    by_cases htype : type' = type
    · subst htype
      simp
    · rw [setDirty_cache_of_ne htype]
  have hpage : ∀ type', ((s.setDirty type dirty).cache type').page = (s.cache type').page := by
    intro type'
    by_cases htype : type' = type
    · subst htype
      simp
    · rw [setDirty_cache_of_ne htype]
  constructor
  · intro type' g
    rw [htag]
    exact h.tags type' g
  · intro type' a ha hkno hcac
    unfold State.Cached at hcac
    rw [htag] at hcac
    rw [State.cacheByte, hpage]
    exact h.cached type' a ha hkno hcac
  · intro type' k a hk ha hkno hmir
    rw [State.DirtyPage, State.Cached, htag]
    exact h.disk type' k a hk ha hkno hmir
  · intro type' g hval hd
    rw [htag] at hval hd
    by_cases htype : type' = type
    · subst htype
      rw [hcle g hval] at hd
      cases hd
    · rw [setDirty_cache_of_ne htype]
      exact h.dirty type' g hval hd

lemma Inv.flushCache {status : EfiStatus} (hv : v.Valid) (h : Inv v disk₀ s spec)
    (hstep : flushCache v s type = (status, s')) :
    Inv v disk₀ s' spec ∧ (∀ type', type' ≠ type → s'.cache type' = s.cache type') ∧
      (status.isError = false → ∀ g, s'.Clean type g) := by
  unfold Fat.flushCache at hstep
  cases hdir : (s.cache type).dirty with
  | false =>
    rw [hdir, if_neg Bool.false_ne_true] at hstep
    obtain ⟨rfl, rfl⟩ := Prod.mk.inj hstep
    refine ⟨h, fun _ _ => rfl, fun _ g hval => ?_⟩
    by_contra hd
    have := h.dirty type g hval (by simpa using hd)
    rw [hdir] at this
    cases this
  | true =>
    rw [hdir, if_pos rfl] at hstep
    rcases hgro : Fat.flushGroups v type (List.range (v.groupCount type)) s with ⟨status₁, s₁⟩
    obtain ⟨hinv, hoth, -, hcle⟩ := h.flushGroups hv hgro
    rw [hgro] at hstep
    dsimp only at hstep
    cases hst : status₁.isError with
    | true =>
      grind
    | false =>
      rw [hst, if_neg Bool.false_ne_true] at hstep
      obtain ⟨rfl, rfl⟩ := Prod.mk.inj hstep
      -- a group that holds a page is one of the groups
      have hall : ∀ g, s₁.Clean type g := by
        intro g hval
        have hcnt : 0 < v.groupCount type := by
          cases type with
          | fat =>
            unfold Volume.groupCount
            dsimp only
            split_ifs <;> decide
          | data => exact (by decide : 0 < 64)
        have hlt : g < v.groupCount type := by
          rw [← (hinv.tags type g hval).1]
          exact Nat.mod_lt _ hcnt
        exact hcle hst g (Or.inl (List.mem_range.mpr hlt)) hval
      refine ⟨hinv.setDirty hall false, fun type' hne => ?_, fun _ g => ?_⟩
      · rw [setDirty_cache_of_ne hne, hoth type' hne]
      · rw [State.Clean, setDirty_tag]
        exact hall g

lemma Inv.flush {status : EfiStatus} (hv : v.Valid) (h : Inv v disk₀ s spec)
    (hstep : fatVolumeFlushCache v s = (status, s')) :
    Inv v disk₀ s' spec ∧ (status.isError = false → ∀ type g, s'.Clean type g) := by
  unfold fatVolumeFlushCache at hstep
  rcases hfat : Fat.flushCache v s .fat with ⟨status₁, s₁⟩
  obtain ⟨hinv, -, hcle⟩ := h.flushCache hv hfat
  rw [hfat] at hstep
  dsimp only at hstep
  cases hst : status₁.isError with
  | true =>
    grind
  | false =>
    rw [hst, if_neg Bool.false_ne_true] at hstep
    rcases hdata : Fat.flushCache v s₁ .data with ⟨status₂, s₂⟩
    obtain ⟨hinv', hoth, hcle'⟩ := hinv.flushCache hv hdata
    rw [hdata] at hstep
    dsimp only at hstep
    cases hst₂ : status₂.isError with
    | true =>
      grind
    | false =>
      rw [hst₂, if_neg Bool.false_ne_true] at hstep
      obtain ⟨rfl, rfl⟩ := Prod.mk.inj hstep
      refine ⟨hinv'.congr rfl rfl, fun _ type g => ?_⟩
      cases type with
      | fat =>
        have hsame : s₂.cache .fat = s₁.cache .fat := hoth .fat (by decide)
        have hfatC := hcle hst g
        unfold State.Clean at hfatC ⊢
        rw [← hsame] at hfatC
        exact hfatC
      | data => exact hcle' hst₂ g

/-! ### Runs -/

/-- A request for the FAT, or for data. -/
structure Volume.Request (v : Volume) (type : CacheType) (offset size : ℕ) : Prop where
  base : v.baseAddress type ≤ offset
  limit : type = .fat → offset + size ≤ v.limitAddress type

/-- The states of runs whose accesses meet a condition, and the content they should show. -/
inductive Reaches (v : Volume) (disk₀ : ℕ → Byte) (answers : ℕ → Answer)
    (P : State → CacheType → Bool → ℕ → ℕ → Buffer → Prop) : State → Spec → Prop
  | initial : Reaches v disk₀ answers P (State.initial disk₀ answers) (Spec.initial disk₀)
  | read {s s' : State} {spec : Spec} {type : CacheType} {offset size : ℕ} {buffer : Buffer}
      {status : EfiStatus} {buffer' : Buffer} (h : Reaches v disk₀ answers P s spec)
      (hrequest : v.Request type offset size) (hcareful : P s type false offset size buffer)
      (hstep : fatDiskIo v s type false offset size buffer = some (status, s', buffer')) :
      Reaches v disk₀ answers P s' spec
  | write {s s' : State} {spec : Spec} {type : CacheType} {offset size : ℕ} {buffer : Buffer}
      {status : EfiStatus} {buffer' : Buffer} (h : Reaches v disk₀ answers P s spec)
      (hrequest : v.Request type offset size) (hcareful : P s type true offset size buffer)
      (hstep : fatDiskIo v s type true offset size buffer = some (status, s', buffer')) :
      Reaches v disk₀ answers P s' (if status.isError then spec.fail offset size
        else spec.write offset size buffer)
  | flush {s s' : State} {spec : Spec} {status : EfiStatus}
      (h : Reaches v disk₀ answers P s spec)
      (hstep : fatVolumeFlushCache v s = (status, s')) : Reaches v disk₀ answers P s' spec

/-- What is read, and what is on the disk after a flush, is the content. -/
structure Correct (v : Volume) (disk₀ : ℕ → Byte)
    (P : State → CacheType → Bool → ℕ → ℕ → Buffer → Prop) (s : State) (spec : Spec) :
    Prop where
  read : ∀ type offset size buffer status s' buffer', v.Request type offset size →
    P s type false offset size buffer →
    fatDiskIo v s type false offset size buffer = some (status, s', buffer') →
    status.isError = false →
    ∀ i < size, ¬spec.unknown (offset + i) → buffer' i = spec.content (offset + i)
  flush : ∀ status s', fatVolumeFlushCache v s = (status, s') → status.isError = false →
    ∀ type k a, k < v.writeCount type → v.InRegion type a → ¬spec.unknown a →
      Mirrored v disk₀ spec k a → s'.disk (a + k * v.fatSize) = spec.content a

/-- No page is loaded in vain over another one. -/
def CarefulAccess (v : Volume) (s : State) (type : CacheType) (write : Bool) (offset size : ℕ)
    (buffer : Buffer) : Prop :=
  offset + size ≤ v.volumeSize → Careful v s type write offset size buffer

lemma part_diskIo (hv : v.Valid) (h : Inv v disk₀ s spec) (hreq : v.Request type offset size)
    (hcar : CarefulAccess v s type write offset size buffer)
    (hstep : fatDiskIo v s type write offset size buffer = some r) :
    Part v disk₀ spec write offset size buffer 0 r := by
  unfold fatDiskIo at hstep
  split_ifs at hstep with hfits
  · obtain ⟨⟨status, s₁, buffer₁⟩, hacc, hstep⟩ := Option.bind_eq_some_iff.mp hstep
    obtain rfl := Option.some.inj hstep
    have hlim : offset + size ≤ v.limitAddress type := by
      cases type with
      | fat => exact hreq.limit rfl
      | data => exact hfits
    have hpart := part_accessCache hv h (hcar hfits) hreq.base hlim hacc
    refine ⟨fun hwri => ?_, fun hread => ?_⟩
    · obtain ⟨hbuf, hok, hfail⟩ := hpart.wrote hwri
      exact ⟨hbuf, fun h => (hok h).congr rfl rfl, fun h => (hfail h).congr rfl rfl⟩
    · obtain ⟨hinv, hout, hin⟩ := hpart.read hread
      exact ⟨hinv.congr rfl rfl, hout, hin⟩
  · obtain rfl := Option.some.inj hstep
    refine ⟨fun _ => ⟨rfl, fun hok => (by cases hok), fun _ => (h.fail _ _).congr rfl rfl⟩,
      fun _ => ⟨h.congr rfl rfl, fun j _ => rfl, fun hok => by cases hok⟩⟩

lemma Reaches.inv (hv : v.Valid) (h : Reaches v disk₀ answers (CarefulAccess v) s spec) :
    Inv v disk₀ s spec := by
  induction h with
  | initial => exact inv_initial answers
  | read _ hreq hcar hstep ih =>
    exact ((part_diskIo hv ih hreq hcar hstep).read rfl).1
  | write _ hreq hcar hstep ih =>
    obtain ⟨-, hok, hfail⟩ := (part_diskIo hv ih hreq hcar hstep).wrote rfl
    grind
  | flush _ hstep ih => exact (ih.flush hv hstep).1

/-- The cache shows what was written last. -/
theorem cache_correct_of_reaches (hv : v.Valid)
    (h : Reaches v disk₀ answers (CarefulAccess v) s spec) :
    Correct v disk₀ (CarefulAccess v) s spec := by
  have hinv := h.inv hv
  constructor
  · intro type offset size buffer status s' buffer' hrequest hcareful hstep hok i hi hknown
    have hpart := (part_diskIo hv hinv hrequest hcareful hstep).read rfl
    grind
  · intro status s' hstep hok type k a hk ha hknown hmirror
    obtain ⟨hinv', hclean⟩ := hinv.flush hv hstep
    refine (hinv'.disk type k a hk ha hknown hmirror).resolve_left fun hd => ?_
    have := hclean hok type _ hd.1.1
    rw [hd.2] at this
    cases this

/-- A small volume with 65 pages of data. -/
def smallVolume : Volume := ⟨534016, 512, 512, 2, 1536, true⟩

lemma smallVolume_valid : smallVolume.Valid := ⟨by decide, rfl, by decide⟩

/-- After a byte of the data was written, the cache shows it. -/
theorem cache_correct_of_reaches_writeByte :
    ∃ s spec, Reaches smallVolume (fun _ => 0) (fun _ => ⟨.success, fun _ => 0⟩)
        (CarefulAccess smallVolume) s spec ∧
      spec.content 1537 = 7 ∧
      Correct smallVolume (fun _ => 0) (CarefulAccess smallVolume) s spec := by
  have hcareful : CarefulAccess smallVolume (.initial (fun _ => 0) fun _ => ⟨.success, fun _ => 0⟩)
      .data true 1537 1 fun _ => 7 := by
    intro _
    refine ⟨fun hvalid => absurd hvalid (by decide), fun _ _ hmore => absurd hmore (by decide)⟩
  have hrequest : smallVolume.Request .data 1537 1 := ⟨by decide, fun h => by cases h⟩
  have hrun := Reaches.write .initial hrequest hcareful rfl
  exact ⟨_, _, hrun, rfl, cache_correct_of_reaches smallVolume_valid hrun⟩

/-- The first page has another content than the others. -/
def pages : ℕ → Byte := fun a => if a < 9728 then 1 else 2

/-- The second access fails. -/
def failSecond : ℕ → Answer := fun n => ⟨if n = 1 then .deviceError else .success, fun _ => 1⟩

/-- A byte of the first page and one of the last page are read, which are of one group. The load of
the last page fails, and the next time the first page is taken for it. -/
theorem not_cache_correct_failedLoad :
    ¬∀ v disk₀ answers s spec, v.Valid → Reaches v disk₀ answers (fun _ _ _ _ _ _ => True) s spec →
      Correct v disk₀ (fun _ _ _ _ _ _ => True) s spec := by
  intro h
  have hfirst : smallVolume.Request .data 1537 1 := ⟨by decide, fun h => by cases h⟩
  have hlast : smallVolume.Request .data 525825 1 := ⟨by decide, fun h => by cases h⟩
  have hinitial : Reaches smallVolume pages failSecond (fun _ _ _ _ _ _ => True)
      (.initial pages failSecond) (.initial pages) := .initial
  have hloaded := hinitial.read hfirst trivial
    (show fatDiskIo _ _ .data false _ 1 (fun _ => 0) = some (_, _, _) from rfl)
  have hrun := hloaded.read hlast trivial
    (show fatDiskIo _ _ .data false _ 1 (fun _ => 0) = some (_, _, _) from rfl)
  have hread := (h _ _ _ _ _ smallVolume_valid hrun).read .data 525825 1 (fun _ => 0) _ _ _ hlast
    trivial rfl rfl 0 Nat.one_pos id
  have hne : (1 : Byte) = 2 := hread
  exact absurd hne (by decide)

end Edk2.Fat
