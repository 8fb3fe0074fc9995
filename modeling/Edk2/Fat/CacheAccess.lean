import Edk2.Fat.CachePages

/-!
# Accesses

An access is done in parts: the parts of pages go through the cache, the aligned pages to the disk.
Each part reads the content, or writes it; the parts are put together at the end.
-/

namespace Edk2.Fat

open Overlay

variable {v : Volume} {disk₀ : ℕ → Byte} {s s' : State} {spec : Spec} {type : CacheType}
  {write : Bool} {p a offset length addr size position count : ℕ} {buffer : Buffer}

/-- What a part of an access does. -/
structure Part (v : Volume) (disk₀ : ℕ → Byte) (spec : Spec) (write : Bool) (addr size : ℕ)
    (buffer : Buffer) (position : ℕ) (r : EfiStatus × State × Buffer) : Prop where
  wrote : write = true → r.2.2 = buffer ∧
    (r.1.isError = false →
      Inv v disk₀ r.2.1 (spec.write addr size fun i => buffer (position + i))) ∧
    (r.1.isError = true → Inv v disk₀ r.2.1 (spec.fail addr size))
  read : write = false → Inv v disk₀ r.2.1 spec ∧
    (∀ j, ¬Covers position size j → r.2.2 j = buffer j) ∧
    (r.1.isError = false → ∀ i < size, ¬spec.unknown (addr + i) →
      r.2.2 (position + i) = spec.content (addr + i))

@[simp] lemma setDirty_tag {dirty : Bool} :
    ((s.setDirty type dirty).cache type).tag = (s.cache type).tag := by
  simp [State.setDirty]

@[simp] lemma setDirty_page {dirty : Bool} :
    ((s.setDirty type dirty).cache type).page = (s.cache type).page := by
  simp [State.setDirty]

@[simp] lemma setDirty_dirty {dirty : Bool} :
    ((s.setDirty type dirty).cache type).dirty = dirty := by
  simp [State.setDirty]

lemma setDirty_cache_of_ne {dirty : Bool} {type' : CacheType} (h : type' ≠ type) :
    (s.setDirty type dirty).cache type' = s.cache type' := Function.update_of_ne h ..

lemma covers_page (hfits : offset + length ≤ v.realSize type p)
    (h : Covers (v.entryPos type p + offset) length a) :
    v.InRegion type a ∧ v.pageOf type a = p := by
  have hcov : Covers (v.entryPos type p) (v.realSize type p) a := by
    unfold Covers at h ⊢
    omega
  refine ⟨?_, Volume.pageOf_eq_of_covers hcov⟩
  have hbase : v.baseAddress type ≤ v.entryPos type p := Nat.le_add_right _ _
  grind [Covers, Volume.realSize, Volume.InRegion]

lemma Inv.writePage (hv : v.Valid) (h : Inv v disk₀ s spec) (hcac : s.Cached v type p)
    (hfits : offset + length ≤ v.realSize type p) (bytes : ℕ → Byte) :
    Inv v disk₀ (((s.setTag type (v.groupNo type p)
        { (s.cache type).tag (v.groupNo type p) with dirty := true }).setDirty type true).setPage
      type (v.groupNo type p)
        (overlay ((s.cache type).page (v.groupNo type p)) offset length bytes))
      (spec.write (v.entryPos type p + offset) length bytes) := by
  obtain ⟨hval, hno⟩ := hcac
  have htags := h.tags type _ hval
  rw [hno] at htags
  refine h.regroup hv type (v.groupNo type p) rfl (fun type' hne => ?_) (fun g' hg => ?_)
    (fun g' hg => ?_) (fun _ => ?_) (fun _ => ?_) (fun _ _ => ?_) (fun a hout hkno => ?_)
    (fun a ha hg hkno hcac => ?_) (fun k a hk ha hg hkno hmir => ?_)
  · rw [setPage_cache_of_ne hne, setDirty_cache_of_ne hne, setTag_cache_of_ne hne]
  · simp [hg]
  · simp [hg]
  · simpa [hno] using htags.2
  · simp
  · simp
  · have hnot : ¬Covers (v.entryPos type p + offset) length a := by
      intro hcov
      obtain ⟨hreg, hpage⟩ := covers_page hfits hcov
      exact hout ⟨hreg, by rw [hpage]⟩
    refine ⟨fun hu => hkno ⟨hu, hnot⟩, Spec.write_content hnot, fun hw => ?_⟩
    exact hw.resolve_right hnot
  · have hpage : v.pageOf type a = p := by
      have := hcac.2
      simpa [hg, hno] using this.symm
    have hadd := Volume.entryPos_add_offsetOf ha.1
    rw [hpage] at hadd
    by_cases hcov : Covers (v.entryPos type p + offset) length a
    · have hcov' : Covers offset length (v.offsetOf type a) := by
        unfold Covers at hcov ⊢
        omega
      have hsub : v.offsetOf type a - offset = a - (v.entryPos type p + offset) := by omega
      simp [State.cacheByte, Spec.write, hpage, hcov, hcov', hsub]
    · have hcov' : ¬Covers offset length (v.offsetOf type a) := by
        unfold Covers at hcov ⊢
        omega
      have hbyte := h.cached type a ha (fun hu => hkno ⟨hu, hcov⟩)
        (by rw [hpage]; exact ⟨hval, hno⟩)
      rw [State.cacheByte, hpage] at hbyte
      simp [State.cacheByte, Spec.write, hpage, hcov, hcov', hbyte]
  · by_cases hpage : v.pageOf type a = p
    · left
      refine ⟨⟨?_, ?_⟩, ?_⟩ <;> rw [hpage]
      · simpa using hval
      · simpa using hno
      · simp
    · have hnot : ¬Covers (v.entryPos type p + offset) length a :=
        fun hcov => hpage (covers_page hfits hcov).2
      right
      rw [Spec.write_content hnot]
      refine (h.disk type k a hk ha (fun hu => hkno ⟨hu, hnot⟩)
        (hmir.imp_left fun hw => hw.resolve_right hnot)).resolve_left fun hd => hpage ?_
      rw [← hd.1.2, hg, hno]

lemma part_unaligned (hv : v.Valid) (h : Inv v disk₀ s spec) (hsafe : LoadSafe v s type p)
    (hpos : 0 < offset + length) (hfits : offset + length ≤ v.realSize type p) :
    Part v disk₀ spec write (v.entryPos type p + offset) length buffer position
      (fatAccessUnalignedCachePage v s type write p offset length buffer position) := by
  unfold fatAccessUnalignedCachePage
  rcases hget : fatGetCachePage v s type p with ⟨status, s₁⟩
  obtain ⟨hinv, hcac⟩ := h.getCachePage hv hsafe (Nat.lt_of_lt_of_le hpos hfits) hget
  dsimp only
  cases hst : status.isError with
  | true =>
    simp only [if_true]
    refine ⟨fun _ => ⟨rfl, fun hok => ?_, fun _ => hinv.fail _ _⟩,
      fun _ => ⟨hinv, fun j _ => rfl, fun hok => ?_⟩⟩ <;>
      rw [hst] at hok <;> cases hok
  | false =>
    simp only [Bool.false_eq_true, if_false]
    have hcac := hcac hst
    cases write with
    | true =>
      simp only [if_true]
      refine ⟨fun _ => ⟨rfl, fun _ => ?_, fun herr => (by cases herr)⟩, fun h => by cases h⟩
      exact hinv.writePage hv hcac hfits _
    | false =>
      simp only [Bool.false_eq_true, if_false]
      refine ⟨fun h => (by cases h), fun _ => ⟨hinv, fun j hj => ?_, fun _ i hi hkno => ?_⟩⟩
      · dsimp only
        exact overlay_of_not_covers hj
      · have hcov : Covers (v.entryPos type p + offset) length (v.entryPos type p + offset + i) :=
          ⟨Nat.le_add_right _ _, Nat.add_lt_add_left hi _⟩
        obtain ⟨hreg, hpage⟩ := covers_page hfits hcov
        have hbyte := hinv.cached type _ hreg hkno (by rw [hpage]; exact hcac)
        have hlt : offset + i < v.pageSize type := by
          have : v.realSize type p ≤ v.pageSize type := Nat.min_le_left _ _
          omega
        rw [State.cacheByte, hpage, Nat.add_assoc,
          (Volume.pageOf_entryPos_add (v := v) (p := p) hlt).2, ← Nat.add_assoc] at hbyte
        dsimp only
        rw [overlay_of_covers ⟨Nat.le_add_right _ _, Nat.add_lt_add_left hi _⟩,
          Nat.add_sub_cancel_left]
        exact hbyte

/-! ### Aligned pages -/

lemma covers_pages (ha : v.InRegion .data a) :
    Covers (v.entryPos .data p) (count * v.pageSize .data) a ↔
      p ≤ v.pageOf .data a ∧ v.pageOf .data a < p + count := by
  have hadd := Volume.entryPos_add_offsetOf ha.1
  have hlt := v.offsetOf_lt .data a
  unfold Volume.entryPos at hadd
  unfold Covers Volume.entryPos
  constructor
  · rintro ⟨hle, hlt'⟩
    constructor
    · by_contra hnot
      have hmul := Nat.mul_le_mul_right (v.pageSize .data) (Nat.lt_of_not_le hnot)
      rw [Nat.succ_mul] at hmul
      omega
    · by_contra hnot
      have hmul := Nat.mul_le_mul_right (v.pageSize .data) (Nat.le_of_not_lt hnot)
      rw [Nat.add_mul] at hmul
      omega
  · rintro ⟨hle, hlt'⟩
    have hmul := Nat.mul_le_mul_right (v.pageSize .data) hle
    have hmul' := Nat.mul_le_mul_right (v.pageSize .data) hlt'
    rw [Nat.succ_mul, Nat.add_mul] at hmul'
    omega

lemma flushDataCachePage_read (q : ℕ) : flushDataCachePage v false p position (s, buffer) q =
    (s, if s.DirtyPage v .data q then overlay buffer (position + (q - p) * v.pageSize .data)
      (v.pageSize .data) ((s.cache .data).page (v.groupNo .data q)) else buffer) := by
  unfold flushDataCachePage
  dsimp only
  by_cases hcac : s.Cached v .data q
  · have hcac' := hcac
    unfold State.Cached at hcac'
    rw [if_pos hcac', if_neg Bool.false_ne_true]
    by_cases hdir : ((s.cache .data).tag (v.groupNo .data q)).dirty = true
    · rw [if_pos hdir, if_pos ⟨hcac, hdir⟩]
    · rw [if_neg hdir, if_neg fun hd => hdir hd.2]
  · have hcle : ¬s.DirtyPage v .data q := fun hd => hcac hd.1
    grind [State.Cached]

lemma flushRange_read (v : Volume) (s : State) (p count : ℕ) (buffer : Buffer) (position : ℕ) :
    (fatFlushDataCacheRange v s false p count buffer position).1 = s ∧
      (∀ i, ¬Covers position (count * v.pageSize .data) i →
        (fatFlushDataCacheRange v s false p count buffer position).2 i = buffer i) ∧
      ∀ j < count, ∀ i < v.pageSize .data,
        (fatFlushDataCacheRange v s false p count buffer position).2
            (position + j * v.pageSize .data + i) =
          if s.DirtyPage v .data (p + j) then (s.cache .data).page (v.groupNo .data (p + j)) i
          else buffer (position + j * v.pageSize .data + i) := by
  induction count with
  | zero => exact ⟨rfl, fun i _ => rfl, fun j hj => absurd hj (Nat.not_lt_zero j)⟩
  | succ count ih =>
    obtain ⟨hsta, hout, hin⟩ := ih
    have hnext : fatFlushDataCacheRange v s false p (count + 1) buffer position =
        (s, if s.DirtyPage v .data (p + count) then
            overlay (fatFlushDataCacheRange v s false p count buffer position).2
              (position + count * v.pageSize .data) (v.pageSize .data)
              ((s.cache .data).page (v.groupNo .data (p + count)))
          else (fatFlushDataCacheRange v s false p count buffer position).2) := by
      have hfold : fatFlushDataCacheRange v s false p (count + 1) buffer position =
          flushDataCachePage v false p position
            (fatFlushDataCacheRange v s false p count buffer position) (p + count) := by
        rw [fatFlushDataCacheRange, List.range'_1_concat, List.foldl_append]
        rfl
      rw [hfold, ← Prod.mk.eta (p := fatFlushDataCacheRange v s false p count buffer position),
        hsta, flushDataCachePage_read, Nat.add_sub_cancel_left]
    rw [hnext]
    refine ⟨rfl, fun i hi => ?_, fun j hj i hi => ?_⟩
    · grind [Nat.succ_mul, overlay_of_not_covers, Covers]
    · dsimp only
      by_cases hlast : j = count
      · grind [overlay_of_covers, Nat.add_sub_cancel_left, Covers]
      · have hlt : j < count := by omega
        have hmul := Nat.mul_le_mul_right (v.pageSize .data) hlt
        grind [Nat.succ_mul, Covers, overlay_of_not_covers]

lemma Inv.data_byte (h : Inv v disk₀ s spec) (ha : v.InRegion .data a)
    (hkno : ¬spec.unknown a) : s.DirtyPage v .data (v.pageOf .data a) ∨
      s.disk a = spec.content a := by
  have := h.disk .data 0 a Nat.one_pos ha hkno (Or.inr (by rw [Nat.zero_mul, Nat.add_zero]))
  rwa [Nat.zero_mul, Nat.add_zero] at this

lemma part_aligned_read (h : Inv v disk₀ s spec)
    (hfits : v.entryPos .data p + count * v.pageSize .data ≤ v.volumeSize) :
    Part v disk₀ spec false (v.entryPos .data p) (count * v.pageSize .data) buffer position
      (accessAligned v s false p count buffer position) := by
  unfold accessAligned
  dsimp only
  rw [if_neg Bool.false_ne_true]
  rcases hread : readDisk v s (v.rootPos + p * v.pageSize .data) (count * v.pageSize .data)
    fun i => buffer (position + i) with ⟨status, s₁, bytes⟩
  obtain ⟨hcach, hdisk, -, hbyt, -⟩ := readDisk_spec hread
  have hinv := h.congr hcach hdisk
  dsimp only
  cases hst : status.isError with
  | true =>
    rw [if_pos rfl]
    refine ⟨fun h => (by cases h), fun _ => ⟨hinv, fun j hj => ?_, fun hok => ?_⟩⟩
    · dsimp only
      exact overlay_of_not_covers hj
    · rw [hst] at hok
      cases hok
  | false =>
    rw [if_neg Bool.false_ne_true]
    obtain ⟨hsta, hout, hin⟩ := flushRange_read v s₁ p count
      (overlay buffer position (count * v.pageSize .data) bytes) position
    refine ⟨fun h => (by cases h), fun _ => ⟨?_, fun j hj => ?_, fun _ i hi hkno => ?_⟩⟩
    · dsimp only
      rw [hsta]
      exact hinv
    · dsimp only
      rw [hout j hj]
      exact overlay_of_not_covers hj
    · -- the byte is in the page `p + i / pageSize`
      have hps := v.pageSize_pos .data
      have hi' : i = i / v.pageSize .data * v.pageSize .data + i % v.pageSize .data :=
        (Nat.div_add_mod' i (v.pageSize .data)).symm
      have hj : i / v.pageSize .data < count := Nat.div_lt_of_lt_mul (by rwa [Nat.mul_comm])
      have hreg : v.InRegion .data (v.entryPos .data p + i) := by
        have hbase : v.baseAddress .data ≤ v.entryPos .data p := Nat.le_add_right _ _
        simp [Volume.InRegion, Volume.limitAddress]
        omega
      have hent : v.entryPos .data p + i =
          v.entryPos .data (p + i / v.pageSize .data) + i % v.pageSize .data := by
        unfold Volume.entryPos
        rw [Nat.add_mul]
        omega
      obtain ⟨hpage, hoff⟩ := Volume.pageOf_entryPos_add (v := v)
        (p := p + i / v.pageSize .data) (Nat.mod_lt i hps)
      rw [← hent] at hpage hoff
      have hbyte := hin (i / v.pageSize .data) hj (i % v.pageSize .data) (Nat.mod_lt i hps)
      rw [Nat.add_assoc, ← hi'] at hbyte
      dsimp only
      rw [hbyte]
      split_ifs with hdir
      · have hcac := hinv.cached .data _ hreg hkno (by rw [hpage]; exact hdir.1)
        rwa [State.cacheByte, hpage, hoff] at hcac
      · rw [overlay_of_covers ⟨Nat.le_add_right _ _, Nat.add_lt_add_left hi _⟩,
          Nat.add_sub_cancel_left, hbyt hst i hi, ← hdisk]
        exact (hinv.data_byte hreg hkno).resolve_left (by rw [hpage]; exact hdir)

lemma flushRange_write (s : State) (p count : ℕ) (buffer : Buffer) (position : ℕ)
    (htags : ∀ g, 0 < ((s.cache .data).tag g).realSize →
      v.groupNo .data ((s.cache .data).tag g).pageNo = g) :
    (fatFlushDataCacheRange v s true p count buffer position).2 = buffer ∧
      (fatFlushDataCacheRange v s true p count buffer position).1.disk = s.disk ∧
      (fatFlushDataCacheRange v s true p count buffer position).1.cache .fat = s.cache .fat ∧
      ((fatFlushDataCacheRange v s true p count buffer position).1.cache .data).page =
        (s.cache .data).page ∧
      ((fatFlushDataCacheRange v s true p count buffer position).1.cache .data).dirty =
        (s.cache .data).dirty ∧
      ∀ g, ((fatFlushDataCacheRange v s true p count buffer position).1.cache .data).tag g =
        if p ≤ ((s.cache .data).tag g).pageNo ∧ ((s.cache .data).tag g).pageNo < p + count ∧
            0 < ((s.cache .data).tag g).realSize then
          { (s.cache .data).tag g with realSize := 0 }
        else (s.cache .data).tag g := by
  induction count with
  | zero =>
    refine ⟨rfl, rfl, rfl, rfl, rfl, fun g => ?_⟩
    rw [if_neg fun h => by omega]
    rfl
  | succ count ih =>
    obtain ⟨hbuf, hdisk, hfat, hpage, hdir, htag⟩ := ih
    have hfold : fatFlushDataCacheRange v s true p (count + 1) buffer position =
        flushDataCachePage v true p position
          (fatFlushDataCacheRange v s true p count buffer position) (p + count) := by
      rw [fatFlushDataCacheRange, List.range'_1_concat, List.foldl_append]
      rfl
    rw [hfold]
    rcases hprev : fatFlushDataCacheRange v s true p count buffer position with ⟨s₁, buffer₁⟩
    rw [hprev] at hbuf hdisk hfat hpage hdir htag
    dsimp only at hbuf hdisk hfat hpage hdir htag
    -- the page behind the range is in a group that was not touched
    have hlast : ∀ g, ((s.cache .data).tag g).pageNo = p + count →
        0 < ((s.cache .data).tag g).realSize → g = v.groupNo .data (p + count) ∧
          (s₁.cache .data).tag g = (s.cache .data).tag g := by
      intro g hno hval
      refine ⟨?_, ?_⟩
      · rw [← hno, htags g hval]
      · rw [htag g, if_neg fun h => by omega]
    unfold flushDataCachePage
    dsimp only
    by_cases hhit : 0 < ((s₁.cache .data).tag (v.groupNo .data (p + count))).realSize ∧
        ((s₁.cache .data).tag (v.groupNo .data (p + count))).pageNo = p + count
    · rw [if_pos hhit, if_pos rfl]
      refine ⟨hbuf, hdisk, ?_, ?_, ?_, fun g => ?_⟩
      · rw [setTag_cache_of_ne (by decide), hfat]
      · simp [hpage]
      · simp [hdir]
      · rw [setTag_tag]
        by_cases hg : g = v.groupNo .data (p + count)
        · grind
        grind
    grind

lemma Volume.Valid.data_of_covers (hv : v.Valid) {k : ℕ}
    (hfits : v.entryPos .data p + count * v.pageSize .data ≤ v.volumeSize)
    (hk : k < v.writeCount type) (ha : v.InRegion type a)
    (hcov : Covers (v.entryPos .data p) (count * v.pageSize .data) (a + k * v.fatSize)) :
    type = .data ∧ k = 0 := by
  have hreg : v.InRegion .data (a + k * v.fatSize) := by
    have hbase : v.baseAddress .data ≤ v.entryPos .data p := Nat.le_add_right _ _
    grind [Covers, Volume.InRegion, Volume.limitAddress]
  have hone : 0 < v.writeCount .data := Nat.one_pos
  obtain ⟨htype, hzero, -⟩ := hv.copy_eq hk hone ha hreg (by omega)
  exact ⟨htype, hzero⟩

lemma Inv.writeAligned (hv : v.Valid) (h : Inv v disk₀ s spec) (bytes : ℕ → Byte)
    (hfits : v.entryPos .data p + count * v.pageSize .data ≤ v.volumeSize)
    (hdisk : s'.disk = overlay s.disk (v.entryPos .data p) (count * v.pageSize .data) bytes)
    (hfat : s'.cache .fat = s.cache .fat) (hpage : (s'.cache .data).page = (s.cache .data).page)
    (hdir : (s'.cache .data).dirty = (s.cache .data).dirty)
    (htag : ∀ g, (s'.cache .data).tag g =
      if p ≤ ((s.cache .data).tag g).pageNo ∧ ((s.cache .data).tag g).pageNo < p + count ∧
          0 < ((s.cache .data).tag g).realSize then
        { (s.cache .data).tag g with realSize := 0 }
      else (s.cache .data).tag g) :
    Inv v disk₀ s' (spec.write (v.entryPos .data p) (count * v.pageSize .data) bytes) := by
  have hval : ∀ g, 0 < ((s'.cache .data).tag g).realSize →
      (s'.cache .data).tag g = (s.cache .data).tag g ∧
        ¬(p ≤ ((s.cache .data).tag g).pageNo ∧ ((s.cache .data).tag g).pageNo < p + count) := by
    intro g hpos
    rw [htag] at hpos ⊢
    split_ifs at hpos ⊢ with hcond
    · exact absurd hpos (Nat.lt_irrefl 0)
    · exact ⟨rfl, fun hin => hcond ⟨hin.1, hin.2, hpos⟩⟩
  -- outside of the range nothing has changed
  have hsame : ∀ a, ¬Covers (v.entryPos .data p) (count * v.pageSize .data) a →
      ¬(spec.write (v.entryPos .data p) (count * v.pageSize .data) bytes).unknown a →
      ¬spec.unknown a ∧
        (spec.write (v.entryPos .data p) (count * v.pageSize .data) bytes).content a =
          spec.content a ∧
        ((spec.write (v.entryPos .data p) (count * v.pageSize .data) bytes).written a →
          spec.written a) := by
    intro a hnot hkno
    exact ⟨fun hu => hkno ⟨hu, hnot⟩, Spec.write_content hnot, fun hw => hw.resolve_right hnot⟩
  have hnotF : ∀ a, v.InRegion .fat a →
      ¬Covers (v.entryPos .data p) (count * v.pageSize .data) a := by
    intro a ha hcov
    have hcov' : Covers (v.entryPos .data p) (count * v.pageSize .data)
        (a + 0 * v.fatSize) := by rwa [Nat.zero_mul, Nat.add_zero]
    have := (hv.data_of_covers hfits hv.numFats ha hcov').1
    cases this
  constructor
  · intro type g hpos
    cases type with
    | fat =>
      rw [hfat] at hpos ⊢
      exact h.tags .fat g hpos
    | data =>
      have hold := (hval g hpos).1
      rw [hold] at hpos ⊢
      exact h.tags .data g hpos
  · intro type a ha hkno hcac
    cases type with
    | fat =>
      obtain ⟨hkno', hcon, -⟩ := hsame a (hnotF a ha) hkno
      unfold State.Cached at hcac
      rw [hfat] at hcac
      rw [State.cacheByte, hfat, hcon]
      exact h.cached .fat a ha hkno' hcac
    | data =>
      obtain ⟨htag', hout⟩ := hval _ hcac.1
      unfold State.Cached at hcac
      rw [htag'] at hcac
      rw [hcac.2, ← covers_pages ha] at hout
      obtain ⟨hkno', hcon, -⟩ := hsame a hout hkno
      rw [State.cacheByte, hpage, hcon]
      exact h.cached .data a ha hkno' hcac
  · intro type k a hk ha hkno hmir
    by_cases hcov : Covers (v.entryPos .data p) (count * v.pageSize .data) (a + k * v.fatSize)
    · obtain ⟨rfl, rfl⟩ := hv.data_of_covers hfits hk ha hcov
      right
      rw [Nat.zero_mul, Nat.add_zero] at hcov ⊢
      rw [hdisk]
      simp [Spec.write, hcov]
    · have hnot : ¬Covers (v.entryPos .data p) (count * v.pageSize .data) a := by
        cases type with
        | fat => exact hnotF a ha
        | data =>
          have hzero : k = 0 := Nat.lt_one_iff.mp hk
          rwa [hzero, Nat.zero_mul, Nat.add_zero] at hcov
      obtain ⟨hkno', hcon, hwri⟩ := hsame a hnot hkno
      rw [hdisk, overlay_of_not_covers hcov, hcon]
      refine (h.disk type k a hk ha hkno' (hmir.imp_left hwri)).imp_left fun hd => ?_
      cases type with
      | fat => rwa [dirtyPage_congr hfat]
      | data =>
        grind [covers_pages, State.DirtyPage, State.Cached]
  · intro type g hpos hd
    cases type with
    | fat =>
      rw [hfat] at hpos hd ⊢
      exact h.dirty .fat g hpos hd
    | data =>
      have hold := (hval g hpos).1
      rw [hold] at hpos hd
      rw [hdir]
      exact h.dirty .data g hpos hd

lemma part_aligned_write (hv : v.Valid) (h : Inv v disk₀ s spec)
    (hfits : v.entryPos .data p + count * v.pageSize .data ≤ v.volumeSize) :
    Part v disk₀ spec true (v.entryPos .data p) (count * v.pageSize .data) buffer position
      (accessAligned v s true p count buffer position) := by
  unfold accessAligned
  dsimp only
  rw [if_pos rfl]
  rcases hwri : writeDisk v s (v.rootPos + p * v.pageSize .data) (count * v.pageSize .data)
    fun i => buffer (position + i) with ⟨status, s₁⟩
  obtain ⟨hcac, hfra, hdisk⟩ := writeDisk_spec hwri
  dsimp only
  cases hst : status.isError with
  | true =>
    rw [if_pos rfl]
    refine ⟨fun _ => ⟨rfl, fun hok => ?_, fun _ => ?_⟩, fun h => by cases h⟩
    · rw [hst] at hok
      cases hok
    · refine (h.fail _ _).disk_frame hcac fun type k a hk ha _ hkno =>
        hfra _ fun hcov => ?_
      obtain ⟨rfl, rfl⟩ := hv.data_of_covers hfits hk ha hcov
      rw [Nat.zero_mul, Nat.add_zero] at hcov
      exact hkno (Or.inr hcov)
  | false =>
    rw [if_neg Bool.false_ne_true]
    obtain ⟨hbuf, hdis', hfat, hpage, hdir, htag⟩ := flushRange_write (v := v) s₁ p count
      buffer position fun g hval => by
        rw [hcac] at hval ⊢
        exact (h.tags .data g hval).1
    refine ⟨fun _ => ⟨hbuf, fun _ => ?_, fun herr => (by cases herr)⟩, fun h => by cases h⟩
    dsimp only
    refine h.writeAligned hv _ hfits ?_ ?_ ?_ ?_ ?_
    · rw [hdis', hdisk hst]
      rfl
    all_goals rw [← hcac]
    · exact hfat
    · exact hpage
    · exact hdir
    · exact htag

section Sequence

variable {size₁ size₂ : ℕ} {r₁ r₂ : EfiStatus × State × Buffer}

lemma part_nil (h : Inv v disk₀ s spec) :
    Part v disk₀ spec write addr 0 buffer position (.success, s, buffer) := by
  have hnot : ∀ a, ¬Covers addr 0 a := fun a hcov => by
    unfold Covers at hcov
    omega
  refine ⟨fun _ => ⟨rfl, fun _ => ?_, fun herr => (by cases herr)⟩,
    fun _ => ⟨h, fun j _ => rfl, fun _ i hi => absurd hi (Nat.not_lt_zero i)⟩⟩
  refine h.mono fun a hkno => ⟨fun hu => hkno ⟨hu, hnot a⟩, ?_, fun hw => ?_⟩
  · exact Spec.write_content (hnot a)
  · exact hw.resolve_right (hnot a)

lemma covers_add {start a : ℕ} : Covers start (size₁ + size₂) a ↔
    Covers start size₁ a ∨ Covers (start + size₁) size₂ a := by
  unfold Covers
  omega

lemma Part.stop (h : Part v disk₀ spec write addr size₁ buffer position r₁)
    (herr : r₁.1.isError = true) (more : ℕ) :
    Part v disk₀ spec write addr (size₁ + more) buffer position r₁ where
  wrote hwrite := by
    obtain ⟨hbuf, -, hfail⟩ := h.wrote hwrite
    refine ⟨hbuf, fun hok => ?_, fun _ => (hfail herr).mono fun a hkno => ⟨?_, rfl, id⟩⟩
    · rw [herr] at hok
      cases hok
    · exact fun hu => hkno (hu.imp_right fun hc => covers_add.mpr (Or.inl hc))
  read hread := by
    obtain ⟨hinv, hout, -⟩ := h.read hread
    refine ⟨hinv, fun j hj => hout j fun hc => hj (covers_add.mpr (Or.inl hc)), fun hok => ?_⟩
    rw [herr] at hok
    cases hok

lemma Part.seq (h₁ : Part v disk₀ spec write addr size₁ buffer position r₁)
    (hok : r₁.1.isError = false)
    (h₂ : ∀ spec', Inv v disk₀ r₁.2.1 spec' →
      Part v disk₀ spec' write (addr + size₁) size₂ r₁.2.2 (position + size₁) r₂) :
    Part v disk₀ spec write addr (size₁ + size₂) buffer position r₂ where
  wrote hwrite := by
    obtain ⟨hbuf, hinv, -⟩ := h₁.wrote hwrite
    obtain ⟨hbuf', hinv', hfail⟩ := (h₂ _ (hinv hok)).wrote hwrite
    refine ⟨hbuf'.trans hbuf, fun hok' => (hinv' hok').mono fun a hkno => ?_,
      fun herr => (hfail herr).mono fun a hkno => ?_⟩
    · refine ⟨fun hu => hkno ⟨hu.1.1, fun hc => ?_⟩, ?_, fun hw => ?_⟩
      · exact (covers_add.mp hc).elim hu.1.2 hu.2
      · -- the later part is written over the earlier one, and they do not meet
        simp only [Spec.write, overlay, hbuf]
        by_cases hc₂ : Covers (addr + size₁) size₂ a
        · have hsub : position + (a - addr) = position + size₁ + (a - (addr + size₁)) := by
            have := hc₂.1
            omega
          rw [if_pos hc₂, if_pos (covers_add.mpr (Or.inr hc₂)), hsub]
        · by_cases hc₁ : Covers addr size₁ a
          · rw [if_neg hc₂, if_pos hc₁, if_pos (covers_add.mpr (Or.inl hc₁))]
          · rw [if_neg hc₂, if_neg hc₁, if_neg fun hc => (covers_add.mp hc).elim hc₁ hc₂]
      · rcases hw with hw | hw
        · exact Or.inl (Or.inl hw)
        · exact (covers_add.mp hw).imp Or.inr id
    · have hnot : ¬Covers addr size₁ a := fun hc => hkno (Or.inr (covers_add.mpr (Or.inl hc)))
      refine ⟨?_, ?_, fun hw => Or.inl hw⟩
      · rintro (hu | hu)
        · exact hkno (Or.inl hu.1)
        · exact hkno (Or.inr (covers_add.mpr (Or.inr hu)))
      · dsimp only [Spec.fail]
        rw [Spec.write_content hnot]
  read hread := by
    obtain ⟨hinv, hout, hin⟩ := h₁.read hread
    obtain ⟨hinv', hout', hin'⟩ := (h₂ spec hinv).read hread
    refine ⟨hinv', fun j hj => ?_, fun hok' i hi hkno => ?_⟩
    · rw [covers_add, not_or] at hj
      rw [hout' j hj.2, hout j hj.1]
    · by_cases hlt : i < size₁
      · rw [hout' _ fun hc => ?_]
        · exact hin hok i hlt hkno
        · have := hc.1
          omega
      · have hi' := hin' hok' (i - size₁) (by omega)
        have hsub : addr + size₁ + (i - size₁) = addr + i := by omega
        have hsub' : position + size₁ + (i - size₁) = position + i := by omega
        rw [hsub, hsub'] at hi'
        exact hi' hkno

end Sequence

end Edk2.Fat
