import Edk2.Fat.Cache

/-!
# Pages

What it does to the content to write a page back, to load one and to access a part of one.
-/

namespace Edk2.Fat

open Overlay

variable {v : Volume} {disk₀ : ℕ → Byte} {s s' : State} {spec : Spec} {type : CacheType}
  {status : EfiStatus} {p g size pos : ℕ} {page : ℕ → Byte}

lemma writeDisk_spec {buffer : Buffer} (h : writeDisk v s pos size buffer = (status, s')) :
    s'.cache = s.cache ∧ (∀ b, ¬Covers pos size b → s'.disk b = s.disk b) ∧
      (status.isError = false → s'.disk = overlay s.disk pos size buffer) := by
  unfold writeDisk at h
  split_ifs at h
  · obtain ⟨rfl, rfl⟩ := Prod.mk.inj h
    refine ⟨rfl, fun b hb => overlay_of_not_covers hb, fun hok => ?_⟩
    rw [hok]
    rfl
  · obtain ⟨rfl, rfl⟩ := Prod.mk.inj h
    exact ⟨rfl, fun b _ => rfl, fun hok => by cases hok⟩

lemma writeCopies_spec {count : ℕ} (hsize : size ≤ v.fatSize ∨ count ≤ 1)
    (h : writeCopies v size page count s pos = (status, s')) :
    s'.cache = s.cache ∧
      (∀ b, (∀ j < count, ¬Covers (pos + j * v.fatSize) size b) → s'.disk b = s.disk b) ∧
      (status.isError = false → ∀ j < count, ∀ i < size,
        s'.disk (pos + j * v.fatSize + i) = page i) := by
  induction count generalizing s pos with
  | zero =>
    obtain ⟨rfl, rfl⟩ := Prod.mk.inj h
    simp
  | succ count ih =>
    rw [writeCopies] at h
    rcases hwri : writeDisk v s pos size page with ⟨status₁, s₁⟩
    obtain ⟨hcac, hfra, hdisk⟩ := writeDisk_spec hwri
    have hfst : pos + 0 * v.fatSize = pos := by rw [Nat.zero_mul, Nat.add_zero]
    have hshi : ∀ j, pos + v.fatSize + j * v.fatSize = pos + (j + 1) * v.fatSize := by
      intro j
      rw [Nat.add_mul]
      omega
    simp only [hwri] at h
    split_ifs at h with herr
    · obtain ⟨rfl, rfl⟩ := Prod.mk.inj h
      refine ⟨hcac, fun b hb => hfra b ?_, fun hok => ?_⟩
      · rw [← hfst]
        exact hb 0 (Nat.succ_pos count)
      · rw [herr] at hok
        cases hok
    · obtain ⟨hcac', hfra', hdis'⟩ := ih (hsize.imp_right fun h => by omega) h
      refine ⟨hcac'.trans hcac, fun b hb => ?_, fun hok j hj i hi => ?_⟩
      · rw [hfra' b fun j hj => ?_, hfra b ?_]
        · rw [← hfst]
          exact hb 0 (Nat.succ_pos count)
        · rw [hshi]
          exact hb (j + 1) (Nat.succ_lt_succ hj)
      · cases j with
        | zero =>
          -- the copies that follow do not touch the first one
          rw [hfst, hfra' (pos + i) fun j hj hcov => ?_, hdisk (by simpa using herr)]
          · rw [overlay_of_covers ⟨Nat.le_add_right _ _, Nat.add_lt_add_left hi _⟩,
              Nat.add_sub_cancel_left]
          · have hle := hcov.1
            omega
        | succ j =>
          grind

lemma realSize_le (v : Volume) (type : CacheType) (p : ℕ) :
    v.realSize type p ≤ v.fatSize ∨ v.writeCount type ≤ 1 := by
  cases type with
  | fat =>
    simp [Volume.realSize, Volume.entryPos, Volume.limitAddress, Volume.baseAddress]
    omega
  | data => exact Or.inr le_rfl

/-! ### One group -/

lemma Volume.Valid.not_inRegion (hv : v.Valid) {type' : CacheType} {a : ℕ}
    (ha : v.InRegion type a) (hne : type ≠ type') : ¬v.InRegion type' a := by
  intro ha'
  have hpos : ∀ type, 0 < v.writeCount type := by
    intro type
    cases type with
    | fat => exact hv.numFats
    | data => exact Nat.one_pos
  exact hne (hv.copy_eq (hpos type) (hpos type') ha ha' rfl).1

/-- The tag and the page of a group are written, and with them perhaps the content of the pages
that belong to the group. -/
lemma Inv.regroup {spec' : Spec} (hv : v.Valid) (h : Inv v disk₀ s spec) (type : CacheType) (g : ℕ)
    (hdisk : s'.disk = s.disk) (hoth : ∀ type', type' ≠ type → s'.cache type' = s.cache type')
    (htag : ∀ g', g' ≠ g → (s'.cache type).tag g' = (s.cache type).tag g')
    (hpage : ∀ g', g' ≠ g → (s'.cache type).page g' = (s.cache type).page g')
    (hnew : 0 < ((s'.cache type).tag g).realSize →
      v.groupNo type ((s'.cache type).tag g).pageNo = g ∧
        ((s'.cache type).tag g).realSize = v.realSize type ((s'.cache type).tag g).pageNo)
    (hflag : (s.cache type).dirty = true → (s'.cache type).dirty = true)
    (hdir : 0 < ((s'.cache type).tag g).realSize → ((s'.cache type).tag g).dirty = true →
      (s'.cache type).dirty = true)
    (hspec : ∀ a, ¬(v.InRegion type a ∧ v.groupNo type (v.pageOf type a) = g) →
      ¬spec'.unknown a → ¬spec.unknown a ∧ spec'.content a = spec.content a ∧
        (spec'.written a → spec.written a))
    (hcach : ∀ a, v.InRegion type a → v.groupNo type (v.pageOf type a) = g →
      ¬spec'.unknown a → s'.Cached v type (v.pageOf type a) →
      s'.cacheByte v type a = spec'.content a)
    (hcop : ∀ k a, k < v.writeCount type → v.InRegion type a →
      v.groupNo type (v.pageOf type a) = g → ¬spec'.unknown a → Mirrored v disk₀ spec' k a →
      s'.DirtyPage v type (v.pageOf type a) ∨ s.disk (a + k * v.fatSize) = spec'.content a) :
    Inv v disk₀ s' spec' := by
  constructor
  · intro type' g' hval
    by_cases htype : type' = type
    · subst htype
      by_cases hg : g' = g
      · subst hg
        exact hnew hval
      · rw [htag g' hg] at hval ⊢
        exact h.tags type' g' hval
    · rw [hoth type' htype] at hval ⊢
      exact h.tags type' g' hval
  · intro type' a ha hkno hcac
    by_cases htype : type' = type
    · subst htype
      by_cases hg : v.groupNo type' (v.pageOf type' a) = g
      · exact hcach a ha hg hkno hcac
      · obtain ⟨hkno', hcon, -⟩ := hspec a (fun hin => hg hin.2) hkno
        unfold State.Cached at hcac
        rw [htag _ hg] at hcac
        rw [State.cacheByte, hpage _ hg, hcon]
        exact h.cached type' a ha hkno' hcac
    · have hout := fun hin : v.InRegion type a ∧ v.groupNo type (v.pageOf type a) = g =>
        hv.not_inRegion ha htype hin.1
      obtain ⟨hkno', hcon, -⟩ := hspec a hout hkno
      unfold State.Cached at hcac
      rw [hoth type' htype] at hcac
      rw [State.cacheByte, hoth type' htype, hcon]
      exact h.cached type' a ha hkno' hcac
  · intro type' k a hk ha hkno hmir
    rw [hdisk]
    by_cases htype : type' = type
    · subst htype
      by_cases hg : v.groupNo type' (v.pageOf type' a) = g
      · exact hcop k a hk ha hg hkno hmir
      · obtain ⟨hkno', hcon, hwri⟩ := hspec a (fun hin => hg hin.2) hkno
        rw [State.DirtyPage, State.Cached, htag _ hg, hcon]
        exact h.disk type' k a hk ha hkno' (hmir.imp_left hwri)
    · have hout := fun hin : v.InRegion type a ∧ v.groupNo type (v.pageOf type a) = g =>
        hv.not_inRegion ha htype hin.1
      obtain ⟨hkno', hcon, hwri⟩ := hspec a hout hkno
      rw [dirtyPage_congr (hoth type' htype), hcon]
      exact h.disk type' k a hk ha hkno' (hmir.imp_left hwri)
  · intro type' g' hval hd
    by_cases htype : type' = type
    · subst htype
      by_cases hg : g' = g
      · subst hg
        exact hdir hval hd
      · rw [htag g' hg] at hval hd
        exact hflag (h.dirty type' g' hval hd)
    · rw [hoth type' htype] at hval hd ⊢
      exact h.dirty type' g' hval hd

@[simp] lemma setTag_tag {tag : CacheTag} (g' : ℕ) : ((s.setTag type g tag).cache type).tag g' =
    if g' = g then tag else ((s.cache type).tag g') := by
  simp [State.setTag, Function.update_apply]

@[simp] lemma setTag_page {tag : CacheTag} :
    ((s.setTag type g tag).cache type).page = (s.cache type).page := by
  simp [State.setTag]

@[simp] lemma setTag_dirty {tag : CacheTag} :
    ((s.setTag type g tag).cache type).dirty = (s.cache type).dirty := by
  simp [State.setTag]

@[simp] lemma setTag_disk {tag : CacheTag} : (s.setTag type g tag).disk = s.disk := rfl

lemma setTag_cache_of_ne {tag : CacheTag} {type' : CacheType} (h : type' ≠ type) :
    (s.setTag type g tag).cache type' = s.cache type' := Function.update_of_ne h ..

/-- The parts of the cache that writing back may change. -/
structure WrittenBack (type : CacheType) (g : ℕ) (s s' : State) : Prop where
  others : ∀ type', type' ≠ type → s'.cache type' = s.cache type'
  page : (s'.cache type).page = (s.cache type).page
  dirty : (s'.cache type).dirty = (s.cache type).dirty
  tag : ∀ g', g' ≠ g → (s'.cache type).tag g' = (s.cache type).tag g'
  pageNo : ((s'.cache type).tag g).pageNo = ((s.cache type).tag g).pageNo
  realSize : ((s'.cache type).tag g).realSize = ((s.cache type).tag g).realSize

lemma Inv.writeBack (hv : v.Valid) (h : Inv v disk₀ s spec)
    (hval : 0 < ((s.cache type).tag g).realSize) (hdir : ((s.cache type).tag g).dirty = true)
    (hstep : writeBack v s type g = (status, s')) :
    Inv v disk₀ s' spec ∧ WrittenBack type g s s' ∧
      (status.isError = false → ((s'.cache type).tag g).dirty = false) := by
  obtain ⟨hgro, hreal⟩ := h.tags type g hval
  unfold Fat.writeBack at hstep
  rcases hcop : writeCopies v ((s.cache type).tag g).realSize
    ((s.cache type).page (v.groupNo type ((s.cache type).tag g).pageNo)) (v.writeCount type) s
    (v.entryPos type ((s.cache type).tag g).pageNo) with ⟨status₁, s₁⟩
  rw [hreal] at hcop
  obtain ⟨hcac, hfra, hwri⟩ := writeCopies_spec (realSize_le v type _) hcop
  have hdirt : s.DirtyPage v type ((s.cache type).tag g).pageNo := by
    refine ⟨⟨?_, ?_⟩, ?_⟩ <;> rw [hgro]
    · exact hval
    · exact hdir
  -- a byte that is written belongs to the page
  have hinv : Inv v disk₀ s₁ spec := by
    refine h.disk_frame hcac fun type' k a hk ha hcle _ => hfra _ fun j hj hcov => ?_
    have hpos := Nat.le_trans (Nat.le_add_left _ _) hcov.1
    have hcov' : Covers (v.entryPos type ((s.cache type).tag g).pageNo)
        (v.realSize type ((s.cache type).tag g).pageNo)
        (a + k * v.fatSize - j * v.fatSize) := by
      unfold Covers at hcov ⊢
      omega
    have hreg : v.InRegion type (a + k * v.fatSize - j * v.fatSize) := by
      unfold Covers Volume.realSize at hcov'
      have hbase : v.baseAddress type ≤ v.entryPos type ((s.cache type).tag g).pageNo :=
        Nat.le_add_right _ _
      unfold Volume.InRegion
      omega
    obtain ⟨rfl, -, heq⟩ := hv.copy_eq hk hj ha hreg (by omega)
    grind [Volume.pageOf_eq_of_covers]
  simp only [hreal, hcop] at hstep
  split_ifs at hstep with herr
  · obtain ⟨rfl, rfl⟩ := Prod.mk.inj hstep
    refine ⟨hinv, ⟨?_, ?_, ?_, ?_, ?_, ?_⟩, fun hok => ?_⟩
    all_goals try rw [hcac]
    · exact fun _ _ => rfl
    · exact fun _ _ => rfl
    · rw [herr] at hok
      cases hok
  · obtain ⟨rfl, rfl⟩ := Prod.mk.inj hstep
    rw [← hcac] at hval hgro hreal ⊢
    refine ⟨hinv.regroup hv type g rfl (fun _ hne => setTag_cache_of_ne hne) (fun g' hg => ?_)
      (fun g' _ => ?_) (fun _ => ?_) (fun hflag => ?_) (fun _ hd => ?_)
      (fun a _ hkno => ⟨hkno, rfl, fun hw => hw⟩) (fun a ha hg hkno hcach => ?_)
      (fun k a hk ha hg hkno hmir => ?_), ⟨?_, ?_, ?_, ?_, ?_, ?_⟩, fun _ => ?_⟩
    · simp [hg]
    · simp
    · simpa [hreal] using hgro
    · simpa using hflag
    · simp at hd
    · have hcac' : s₁.Cached v type (v.pageOf type a) := by
        simpa [State.Cached, hg, hreal] using hcach
      simpa [State.cacheByte] using hinv.cached type a ha hkno hcac'
    · right
      by_cases hpage : v.pageOf type a = ((s₁.cache type).tag g).pageNo
      · have hbyte := hwri (by simpa using herr) k hk (v.offsetOf type a)
          (by rw [← hcac, ← hpage]; exact Volume.offsetOf_lt_realSize ha)
        have hcach : s₁.Cached v type (v.pageOf type a) := by
          simpa [State.Cached, hg] using ⟨hval, hpage.symm⟩
        have hadd := Volume.entryPos_add_offsetOf ha.1
        rw [← hinv.cached type a ha hkno hcach, State.cacheByte, ← hadd]
        rw [← hcac, ← hpage] at hbyte
        rw [Nat.add_right_comm, hbyte, hadd]
      · refine (hinv.disk type k a hk ha hkno hmir).resolve_left fun hd => hpage ?_
        rw [← hd.1.2, hg]
    · exact fun type' hne => (setTag_cache_of_ne hne).trans (congrFun hcac type')
    · simp [hcac]
    · simp [hcac]
    · exact fun g' hg => by simp [hg, hcac]
    · simp [hcac]
    · rw [hcac] at hreal
      simp [hcac, hreal]
    · simp

lemma WrittenBack.refl (type : CacheType) (g : ℕ) (s : State) : WrittenBack type g s s :=
  ⟨fun _ _ => rfl, rfl, rfl, fun _ _ => rfl, rfl, rfl⟩

lemma Inv.evictPage (hv : v.Valid) (h : Inv v disk₀ s spec)
    (hstep : evictPage v s type g = (status, s')) :
    Inv v disk₀ s' spec ∧ WrittenBack type g s s' ∧ (status.isError = false →
      0 < ((s'.cache type).tag g).realSize → ((s'.cache type).tag g).dirty = false) := by
  unfold Fat.evictPage at hstep
  dsimp only at hstep
  split_ifs at hstep with hnee
  · obtain ⟨hinv, hback, hcle⟩ := h.writeBack hv hnee.1 hnee.2 hstep
    exact ⟨hinv, hback, fun hok _ => hcle hok⟩
  · obtain ⟨rfl, rfl⟩ := Prod.mk.inj hstep
    refine ⟨h, WrittenBack.refl type g s, fun _ hval => ?_⟩
    grind

/-! ### Loading -/

lemma Inv.load (hv : v.Valid) (h : Inv v disk₀ s spec)
    (hcle : 0 < ((s.cache type).tag (v.groupNo type p)).realSize →
      ((s.cache type).tag (v.groupNo type p)).dirty = false)
    (hdisk : s'.disk = s.disk) (hoth : ∀ type', type' ≠ type → s'.cache type' = s.cache type')
    (htag : ∀ g', g' ≠ v.groupNo type p → (s'.cache type).tag g' = (s.cache type).tag g')
    (hpage : ∀ g', g' ≠ v.groupNo type p → (s'.cache type).page g' = (s.cache type).page g')
    (hflag : (s'.cache type).dirty = (s.cache type).dirty)
    (hnew : 0 < ((s'.cache type).tag (v.groupNo type p)).realSize →
      (s'.cache type).tag (v.groupNo type p) = ⟨p, v.realSize type p, false⟩ ∧
        ∀ i < v.realSize type p, (s'.cache type).page (v.groupNo type p) i =
          s.disk (v.entryPos type p + i)) :
    Inv v disk₀ s' spec := by
  -- what is in the group is on the disk
  have hsyn : ∀ k a, k < v.writeCount type → v.InRegion type a →
      v.groupNo type (v.pageOf type a) = v.groupNo type p → ¬spec.unknown a →
      Mirrored v disk₀ spec k a → s.disk (a + k * v.fatSize) = spec.content a := by
    intro k a hk ha hg hkno hmir
    refine (h.disk type k a hk ha hkno hmir).resolve_left fun hd => ?_
    obtain ⟨⟨hval, -⟩, hd⟩ := hd
    rw [hg] at hval hd
    rw [hcle hval] at hd
    cases hd
  refine h.regroup hv type (v.groupNo type p) hdisk hoth htag hpage (fun hval => ?_)
    (fun hf => hflag.trans hf) (fun hval hd => ?_)
    (fun a _ hkno => ⟨hkno, rfl, fun hw => hw⟩) (fun a ha hg hkno hcac => ?_)
    (fun k a hk ha hg hkno hmir => Or.inr (hsyn k a hk ha hg hkno hmir))
  · rw [(hnew hval).1]
    exact ⟨rfl, rfl⟩
  · rw [(hnew hval).1] at hd
    cases hd
  · obtain ⟨hval, hno⟩ := hcac
    rw [hg] at hval hno
    obtain ⟨htag', hbyt⟩ := hnew hval
    rw [htag'] at hno
    have hzero : 0 < v.writeCount type := by
      cases type with
      | fat => exact hv.numFats
      | data => exact Nat.one_pos
    have hsync := hsyn 0 a hzero ha hg hkno (Or.inr (by rw [Nat.zero_mul, Nat.add_zero]))
    rw [Nat.zero_mul, Nat.add_zero] at hsync
    have hlt := Volume.offsetOf_lt_realSize ha
    have hadd := Volume.entryPos_add_offsetOf ha.1
    grind [State.cacheByte]

lemma readDisk_spec {buffer buffer' : Buffer}
    (h : readDisk v s pos size buffer = (status, s', buffer')) :
    s'.cache = s.cache ∧ s'.disk = s.disk ∧
      (∀ i, ¬Covers 0 size i → buffer' i = buffer i) ∧
      (status.isError = false → ∀ i < size, buffer' i = s.disk (pos + i)) ∧
      (pos + size ≤ v.volumeSize → status = (s.answers 0).status) := by
  unfold readDisk at h
  split_ifs at h with hfits
  · obtain ⟨rfl, rfl, rfl⟩ := h
    refine ⟨rfl, rfl, fun i hi => overlay_of_not_covers hi, fun hok i hi => ?_, fun _ => rfl⟩
    rw [overlay_of_covers ⟨Nat.zero_le i, by rwa [Nat.zero_add]⟩, hok]
    rfl
  · obtain ⟨rfl, rfl, rfl⟩ := h
    exact ⟨rfl, rfl, fun i _ => rfl, fun hok => (by cases hok), fun h => absurd h hfits⟩

@[simp] lemma setPage_tag {group : ℕ} :
    ((s.setPage type group page).cache type).tag = (s.cache type).tag := by
  simp [State.setPage]

@[simp] lemma setPage_page {group : ℕ} (g' : ℕ) :
    ((s.setPage type group page).cache type).page g' =
      if g' = group then page else (s.cache type).page g' := by
  simp [State.setPage, Function.update_apply]

@[simp] lemma setPage_dirty {group : ℕ} :
    ((s.setPage type group page).cache type).dirty = (s.cache type).dirty := by
  simp [State.setPage]

lemma setPage_cache_of_ne {group : ℕ} {type' : CacheType} (h : type' ≠ type) :
    (s.setPage type group page).cache type' = s.cache type' := Function.update_of_ne h ..

/-- The parts of the state that loading a page may change. -/
structure Loaded (v : Volume) (type : CacheType) (p : ℕ) (s s' : State) : Prop where
  disk : s'.disk = s.disk
  others : ∀ type', type' ≠ type → s'.cache type' = s.cache type'
  tag : ∀ g', g' ≠ v.groupNo type p → (s'.cache type).tag g' = (s.cache type).tag g'
  page : ∀ g', g' ≠ v.groupNo type p → (s'.cache type).page g' = (s.cache type).page g'
  dirty : (s'.cache type).dirty = (s.cache type).dirty

lemma loadPage_spec (hno : ((s.cache type).tag (v.groupNo type p)).pageNo = p)
    (hstep : loadPage v s type (v.groupNo type p) = (status, s')) :
    Loaded v type p s s' ∧
      (status.isError = false → (s'.cache type).tag (v.groupNo type p) =
          ⟨p, v.realSize type p, false⟩ ∧ ∀ i < v.realSize type p,
        (s'.cache type).page (v.groupNo type p) i = s.disk (v.entryPos type p + i)) ∧
      (status.isError = true → (s'.cache type).tag (v.groupNo type p) =
        (s.cache type).tag (v.groupNo type p)) ∧
      (v.entryPos type p + v.realSize type p ≤ v.volumeSize →
        status.isError = (s.answers 0).status.isError) := by
  unfold loadPage at hstep
  dsimp only at hstep
  rw [hno] at hstep
  rcases hread : readDisk v s (v.entryPos type p) (v.realSize type p)
    ((s.cache type).page (v.groupNo type p)) with ⟨status₁, s₁, page⟩
  obtain ⟨hcac, hdisk, -, hbyt, hst⟩ := readDisk_spec hread
  rw [hread] at hstep
  dsimp only at hstep
  split_ifs at hstep with herr
  · obtain ⟨rfl, rfl⟩ := Prod.mk.inj hstep
    refine ⟨⟨hdisk, fun type' hne => ?_, fun g' _ => ?_, fun g' hg => ?_, ?_⟩, fun hok => ?_,
      fun _ => ?_, fun hfits => by rw [hst hfits]⟩
    · grind [setPage_cache_of_ne]
    · simp [hcac]
    · simp [hg, hcac]
    · simp [hcac]
    · rw [herr] at hok
      cases hok
    · simp [hcac]
  · obtain ⟨rfl, rfl⟩ := Prod.mk.inj hstep
    have hok : status₁.isError = false := by simpa using herr
    refine ⟨⟨hdisk, fun type' hne => ?_, fun g' hg => ?_, fun g' hg => ?_, ?_⟩,
      fun _ => ⟨?_, fun i hi => ?_⟩, fun h => (by cases h), fun hfits => ?_⟩
    · exact (setTag_cache_of_ne hne).trans ((setPage_cache_of_ne hne).trans (congrFun hcac type'))
    · simp [hg, hcac]
    · simp [hg, hcac]
    · simp [hcac]
    · simp
    · simp [hbyt hok i hi]
    · rw [← hst hfits, hok]
      rfl

/-- A page can be loaded without losing the one that is in its group. -/
def LoadSafe (v : Volume) (s : State) (type : CacheType) (p : ℕ) : Prop :=
  let group := v.groupNo type p
  let tag := (s.cache type).tag group
  0 < tag.realSize → tag.pageNo ≠ p → (evictPage v s type group).1.isError = false →
    ((evictPage v s type group).2.answers 0).status.isError = false

lemma Volume.Valid.limitAddress_le (hv : v.Valid) (type : CacheType) :
    v.limitAddress type ≤ v.volumeSize := by
  cases type with
  | fat =>
    have hone : 1 * v.fatSize ≤ v.numFats * v.fatSize := Nat.mul_le_mul_right _ hv.numFats
    have hroot := hv.rootPos
    have hsize := hv.volumeSize
    unfold Volume.limitAddress
    dsimp only
    omega
  | data => exact le_rfl

lemma Inv.getCachePage (hv : v.Valid) (h : Inv v disk₀ s spec) (hsafe : LoadSafe v s type p)
    (hreal : 0 < v.realSize type p) (hstep : fatGetCachePage v s type p = (status, s')) :
    Inv v disk₀ s' spec ∧ (status.isError = false → s'.Cached v type p) := by
  unfold fatGetCachePage at hstep
  dsimp only at hstep
  by_cases hhit : 0 < ((s.cache type).tag (v.groupNo type p)).realSize ∧
      ((s.cache type).tag (v.groupNo type p)).pageNo = p
  · rw [if_pos hhit] at hstep
    obtain ⟨rfl, rfl⟩ := Prod.mk.inj hstep
    exact ⟨h, fun _ => hhit⟩
  · rw [if_neg hhit] at hstep
    rcases hevi : Fat.evictPage v s type (v.groupNo type p) with ⟨status₁, s₁⟩
    obtain ⟨hinv, hback, hcle⟩ := h.evictPage hv hevi
    rw [hevi] at hstep
    dsimp only at hstep
    split_ifs at hstep with herr
    · grind
    · have hok₁ : status₁.isError = false := by simpa using herr
      obtain ⟨hloa, hnew, hold, hans⟩ := loadPage_spec (by simp) hstep
      have hfits : v.entryPos type p + v.realSize type p ≤ v.volumeSize := by
        have hlim := hv.limitAddress_le type
        unfold Volume.realSize at hreal ⊢
        omega
      -- a load that fails leaves an empty group
      have hemp : status.isError = true →
          ((s'.cache type).tag (v.groupNo type p)).realSize = 0 := by
        intro hfail
        rw [hold hfail]
        simp only [setTag_tag, if_true]
        by_contra hne
        have hval := Nat.pos_of_ne_zero hne
        rw [hback.realSize] at hval
        have hans' := hsafe hval (fun heq => hhit ⟨hval, heq⟩) (by rw [hevi]; exact hok₁)
        rw [hevi] at hans'
        rw [hans hfits] at hfail
        have hsame : ((s₁.setTag type (v.groupNo type p)
            { (s₁.cache type).tag (v.groupNo type p) with pageNo := p }).answers 0).status =
            (s₁.answers 0).status := rfl
        rw [hsame, hans'] at hfail
        cases hfail
      refine ⟨hinv.load hv (hcle hok₁) (hloa.disk) (fun type' hne => ?_) (fun g' hg => ?_)
        (fun g' hg => ?_) ?_ (fun hval => ?_), fun hok => ?_⟩
      · exact (hloa.others type' hne).trans (setTag_cache_of_ne hne)
      · rw [hloa.tag g' hg]
        simp [hg]
      · rw [hloa.page g' hg]
        simp
      · rw [hloa.dirty]
        simp
      · cases hst : status.isError with
        | true =>
          grind
        | false => exact hnew hst
      grind [State.Cached]

end Edk2.Fat
